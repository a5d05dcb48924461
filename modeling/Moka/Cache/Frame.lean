import Moka.Cache.System

/-!
# What the maintenance work leaves alone

The deque operations, the entries' cells and the weighted size are the maintenance cycle's
own. Of the state the hot path and the scan task share, a cycle only removes keys from the
map, takes ops off the channels, and replaces the invalidator in its invalidation phase.
Each function gets one frame lemma here, stated with `view` (the map, the two channels and
the invalidator, untouched) or with `Keeps` (the map loses keys, the rest of `view` is
untouched); callers cite the lemma and never unfold the function again.

## Main results

- `handleUpsert_keeps`, `removeExpired_keeps`, `evict_keeps`, `invalidateEntries_keeps`:
  maintenance only removes keys from the map and leaves the channels.
- `syncLoop_drains`: the first pass of the loop of `sync` empties both channels.
- `sync_cases`: everything a cycle can do.
- `sync_keeps`: a cycle only removes keys from the map, empties both channels, and changes
  the invalidator only in its invalidation phase.
-/

namespace Moka

namespace Inner

variable {K V σ : Type} [DecidableEq K] (cfg : Config K V σ)

/-- The part of the state the cycle shares with the hot path and the scan task: the map,
the channels and the invalidator. -/
def view (s : Inner K V σ) : AList (fun _ : K => ValueEntry V) × List (ReadOp V) ×
    List (WriteOp K V) × Option (Invalidator K V (ValueEntry V)) :=
  (s.cache, s.readOpCh, s.writeOpCh, s.invalidator)

/-- The map only lost keys, and the channels and the invalidator are as they were. -/
structure Keeps (s s' : Inner K V σ) : Prop where
  subMap : ∀ k e, s'.cache.lookup k = some e → s.cache.lookup k = some e
  readOpCh : s'.readOpCh = s.readOpCh
  writeOpCh : s'.writeOpCh = s.writeOpCh
  invalidator : s'.invalidator = s.invalidator

theorem Keeps.refl (s : Inner K V σ) : Keeps s s := ⟨fun _ _ h => h, rfl, rfl, rfl⟩

theorem Keeps.trans {s₁ s₂ s₃ : Inner K V σ} (h₁ : Keeps s₁ s₂) (h₂ : Keeps s₂ s₃) :
    Keeps s₁ s₃ :=
  ⟨fun k e h => h₁.subMap k e (h₂.subMap k e h), h₂.readOpCh.trans h₁.readOpCh,
    h₂.writeOpCh.trans h₁.writeOpCh, h₂.invalidator.trans h₁.invalidator⟩

theorem Keeps.of_view {s s' : Inner K V σ} (h : view s' = view s) : Keeps s s' := by
  simp only [view, Prod.mk.injEq] at h
  exact ⟨fun _ _ he => h.1 ▸ he, h.2.1, h.2.2.1, h.2.2.2⟩

theorem Keeps.erase (s : Inner K V σ) (key : K) : Keeps s { s with cache := s.cache.erase key } :=
  ⟨fun k e h => by
    by_cases hk : k = key
    · subst hk
      simp [AList.lookup_erase] at h
    · rwa [AList.lookup_erase_ne hk] at h, rfl, rfl, rfl⟩

/-- A fold whose every step keeps the map and channels keeps them. -/
theorem Keeps.foldl {α : Type} (f : Inner K V σ → α → Inner K V σ) (hf : ∀ s a, Keeps s (f s a)) :
    ∀ (l : List α) (s : Inner K V σ), Keeps s (l.foldl f s)
  | [], s => .refl s
  | a :: l, s => (hf s a).trans (Keeps.foldl f hf l (f s a))

/-! ## The deque operations -/

omit [DecidableEq K] in
@[simp] theorem view_setInfo (s : Inner K V σ) (i : Nat) (f : EntryInfo → EntryInfo) :
    view (s.setInfo i f) = view s := rfl

omit [DecidableEq K] in
@[simp] theorem view_derefDropped (s : Inner K V σ) : view s.derefDropped = view s := rfl

omit [DecidableEq K] in
@[simp] theorem view_setIsAdmitted (s : Inner K V σ) (e : ValueEntry V) (b : Bool) :
    view (s.setIsAdmitted e b) = view s := rfl

omit [DecidableEq K] in
@[simp] theorem view_weightedSize (s : Inner K V σ) (w : Nat) :
    view { s with weightedSize := w } = view s := rfl

omit [DecidableEq K] in
@[simp] theorem view_setQNodes (s : Inner K V σ) (e : ValueEntry V) (f : DeqNodes → DeqNodes) :
    view (s.setQNodes e f) = view s := rfl

omit [DecidableEq K] in
@[simp] theorem view_setAoDeque (s : Inner K V σ) (r : CacheRegion) (d : Deque (KeyHashDate K)) :
    view (s.setAoDeque r d) = view s := by
  cases r <;> rfl

omit [DecidableEq K] in
@[simp] theorem view_pushBackAo (s : Inner K V σ) (r : CacheRegion) (khd : KeyHashDate K)
    (e : ValueEntry V) : view (s.pushBackAo r khd e) = view s :=
  view_setAoDeque s r _

omit [DecidableEq K] in
@[simp] theorem view_pushBackWo (s : Inner K V σ) (kd : KeyDate K) (e : ValueEntry V) :
    view (s.pushBackWo kd e) = view s := rfl

omit [DecidableEq K] in
@[simp] theorem view_moveToBackAo (s : Inner K V σ) (e : ValueEntry V) :
    view (s.moveToBackAo e) = view s := by
  unfold moveToBackAo
  split <;> (try split) <;> simp

omit [DecidableEq K] in
@[simp] theorem view_moveToBackAoInDeque (s : Inner K V σ) (r : CacheRegion) (e : ValueEntry V) :
    view (s.moveToBackAoInDeque r e) = view s := by
  unfold moveToBackAoInDeque
  split <;> (try split) <;> simp

omit [DecidableEq K] in
@[simp] theorem view_moveToBackWo (s : Inner K V σ) (e : ValueEntry V) :
    view (s.moveToBackWo e) = view s := by
  unfold moveToBackWo
  split <;> (try split) <;> rfl

omit [DecidableEq K] in
@[simp] theorem view_unlinkAo (s : Inner K V σ) (e : ValueEntry V) :
    view (s.unlinkAo e) = view s := by
  unfold unlinkAo
  split <;> (try split) <;> simp

omit [DecidableEq K] in
@[simp] theorem view_unlinkAoFromDeque (s : Inner K V σ) (r : CacheRegion) (e : ValueEntry V) :
    view (s.unlinkAoFromDeque r e) = view s := by
  unfold unlinkAoFromDeque
  split <;> (try split) <;> simp

omit [DecidableEq K] in
@[simp] theorem view_unlinkWo (s : Inner K V σ) (e : ValueEntry V) :
    view (s.unlinkWo e) = view s := by
  unfold unlinkWo
  split <;> (try split) <;> rfl

/-! ## Admission and removal -/

omit [DecidableEq K] in
@[simp] theorem view_handleAdmit (s : Inner K V σ) (kh : KeyHash K) (e : ValueEntry V) (w : Nat) :
    view (handleAdmit cfg s kh e w) = view s := by
  unfold handleAdmit
  split <;> simp

omit [DecidableEq K] in
@[simp] theorem view_handleRemove (s : Inner K V σ) (key : K) (e : ValueEntry V) :
    view (handleRemove cfg s key e) = view s := by
  unfold handleRemove handleRemoveWith unsetQNodes
  split <;> simp

omit [DecidableEq K] in
@[simp] theorem view_handleRemoveWithDeques (r : CacheRegion) (s : Inner K V σ) (key : K)
    (e : ValueEntry V) : view (handleRemoveWithDeques cfg r s key e) = view s := by
  unfold handleRemoveWithDeques handleRemoveWith unsetQNodes
  split <;> simp

omit [DecidableEq K] in
@[simp] theorem view_moveSkipped (s : Inner K V σ) (skipped : List (DeqNode (KeyHashDate K))) :
    view (moveSkipped s skipped) = view s := by
  induction skipped generalizing s with
  | nil => rfl
  | cons n rest ih =>
    refine (ih _).trans ?_
    dsimp only
    split <;> rfl

theorem removeVictims_keeps :
    ∀ (s : Inner K V σ) (skipped victims : List (DeqNode (KeyHashDate K))),
    Keeps s (removeVictims cfg s skipped victims).1
  | s, _, [] => .refl s
  | s, skipped, victim :: rest => by
    unfold removeVictims
    split
    · split
      · exact (Keeps.erase s _).trans
          ((Keeps.of_view (view_handleRemove cfg _ _ _)).trans (removeVictims_keeps _ _ rest))
      · exact removeVictims_keeps s _ rest
    · exact .of_view rfl

/-- `handle_upsert` only removes keys from the map: the candidate's or the victims'. -/
theorem handleUpsert_keeps (s : Inner K V σ) (kh : KeyHash K) (e : ValueEntry V) (ts : Nat) :
    Keeps s (handleUpsert cfg s kh e ts) := by
  have h₀ : Keeps s ((s.setLastAccessed e ts).setLastModified e ts) := .of_view rfl
  unfold handleUpsert
  dsimp only
  generalize (s.setLastAccessed e ts).setLastModified e ts = s₀ at h₀
  refine h₀.trans ?_
  split
  · exact .of_view (by simp)
  · split
    · exact .of_view (view_handleAdmit cfg _ _ _ _)
    · split
      · exact .erase s₀ _
      · split
        · rename_i victims skipped _
          have hv := removeVictims_keeps cfg s₀ skipped victims
          generalize removeVictims cfg s₀ skipped victims = r at hv ⊢
          exact hv.trans (.of_view (by simp))
        · exact (Keeps.erase s₀ _).trans (.of_view (view_moveSkipped _ _))

/-! ## The sweep -/

section Sweep

variable {α : Type} (deq : Inner K V σ → Deque α) (setDeq : Inner K V σ → Deque α → Inner K V σ)
  (nodeKey : α → K) (nodeTs : Inner K V σ → DeqNode α → Option Nat)
  (entryTs : Inner K V σ → ValueEntry V → Option Nat) (isExpired : Option Nat → Bool)
  (remove : Inner K V σ → K → ValueEntry V → Inner K V σ)
  (moveUpdated : Inner K V σ → ValueEntry V → Inner K V σ)

/-- One iteration of the sweep only removes a key, when the node's handlers leave the map
and channels. -/
theorem removeExpiredStep_keeps (hset : ∀ s d, view (setDeq s d) = view s)
    (hremove : ∀ s k e, view (remove s k e) = view s) (hmove : ∀ s e, view (moveUpdated s e) = view s)
    {s s' : Inner K V σ}
    (h : removeExpiredStep deq setDeq nodeKey nodeTs entryTs isExpired remove moveUpdated s = some s') :
    Keeps s s' := by
  unfold removeExpiredStep at h
  split at h
  · cases h
  · split at h
    · cases h
    · dsimp only at h
      split at h
      · split at h
        · cases h
          exact (Keeps.erase s _).trans (.of_view (hremove _ _ _))
        · split at h
          · cases h
            exact .of_view (hmove _ _)
          · cases h
      · cases h
        exact .of_view (hset _ _)

/-- The sweep only removes keys, when the node's handlers leave the map and channels. -/
theorem removeExpired_keeps (hset : ∀ s d, view (setDeq s d) = view s)
    (hremove : ∀ s k e, view (remove s k e) = view s) (hmove : ∀ s e, view (moveUpdated s e) = view s) :
    ∀ (n : Nat) (s : Inner K V σ),
    Keeps s (removeExpired deq setDeq nodeKey nodeTs entryTs isExpired remove moveUpdated n s)
  | 0, s => .refl s
  | n + 1, s => by
    unfold removeExpired
    split
    · exact (removeExpiredStep_keeps deq setDeq nodeKey nodeTs entryTs isExpired remove moveUpdated
        hset hremove hmove ‹_›).trans (removeExpired_keeps hset hremove hmove n _)
    · exact .refl s

end Sweep

theorem removeExpiredAo_keeps (r : CacheRegion) (batchSize now : Nat) (s : Inner K V σ) :
    Keeps s (removeExpiredAo cfg r batchSize now s) := by
  unfold removeExpiredAo
  exact removeExpired_keeps _ _ _ _ _ _ _ _ (fun _ _ => view_setAoDeque _ _ _)
    (fun _ _ _ => view_handleRemoveWithDeques cfg _ _ _ _) (fun _ _ => by simp) _ _

theorem removeExpiredWo_keeps (batchSize now : Nat) (s : Inner K V σ) :
    Keeps s (removeExpiredWo cfg batchSize now s) := by
  unfold removeExpiredWo
  exact removeExpired_keeps (fun s => s.writeOrder) (fun s d => { s with writeOrder := d }) KeyDate.key
    _ _ _ (handleRemove cfg) (fun s e => (s.moveToBackAo e).moveToBackWo e) (fun _ _ => rfl)
    (fun _ _ _ => view_handleRemove cfg _ _ _) (fun _ _ => by simp) _ _

theorem evict_keeps (s : Inner K V σ) (batchSize now : Nat) : Keeps s (evict cfg s batchSize now) := by
  have hwo : Keeps s (if cfg.isWriteOrderQueueEnabled then removeExpiredWo cfg batchSize now s else s) := by
    split
    · exact removeExpiredWo_keeps cfg _ _ _
    · exact .refl s
  unfold evict
  dsimp only
  generalize (if cfg.isWriteOrderQueueEnabled then removeExpiredWo cfg batchSize now s else s) = s₁ at hwo
  split
  · exact hwo.trans ((removeExpiredAo_keeps cfg _ _ _ _).trans
      ((removeExpiredAo_keeps cfg _ _ _ _).trans (removeExpiredAo_keeps cfg _ _ _ _)))
  · exact hwo

/-! ## Invalidation -/

omit [DecidableEq K] in
theorem processInvalidationResult_view {s : Inner K V σ} {inv inv' : Invalidator K V (ValueEntry V)}
    {s' : Inner K V σ} (h : processInvalidationResult cfg s inv = .ok (s', inv')) : view s' = view s := by
  unfold processInvalidationResult at h
  split at h
  · cases h
  · cases h
    rfl
  · rename_i res _ _
    simp only [Except.ok.injEq, Prod.mk.injEq] at h
    obtain ⟨rfl, -⟩ := h
    have h₁ := List.foldlRecOn (motive := fun t => view t = view s) res.invalidated
      (fun s kv => handleRemove cfg s kv.1 kv.2) s rfl fun t ht kv _ => (view_handleRemove cfg t _ _).trans ht
    split <;> exact h₁

omit [DecidableEq K] in
theorem submitInvalidationTask_view {s : Inner K V σ} {inv inv' : Invalidator K V (ValueEntry V)}
    {batchSize now : Nat} {s' : Inner K V σ} {task : Option (InvalidationTask K)}
    (h : submitInvalidationTask s inv batchSize now = .ok (s', inv', task)) : view s' = view s := by
  unfold submitInvalidationTask at h
  split at h
  · cases h
    rfl
  · dsimp only at h
    split at h
    · split at h
      · cases h
      · cases h
        rfl
    · cases h
      rfl

/-- `invalidate_entries` only removes keys from the map and leaves the channels; it
replaces the invalidator. -/
theorem invalidateEntries_keeps {s : Inner K V σ} {inv : Invalidator K V (ValueEntry V)}
    {batchSize now : Nat} {s' : Inner K V σ} {task : Option (InvalidationTask K)}
    (h : invalidateEntries cfg s inv batchSize now = .ok (s', task)) :
    Keeps s { s' with invalidator := s.invalidator } := by
  unfold invalidateEntries at h
  split at h
  · cases h
  · rename_i s₁ inv₁ h₁
    split at h
    · cases h
    · rename_i s₂ inv₂ task₂ h₂
      cases h
      have h₃ := (submitInvalidationTask_view h₂).trans (processInvalidationResult_view cfg h₁)
      simp only [view, Prod.mk.injEq] at h₃
      exact .of_view (by simp only [view, h₃])

/-! ## The cycle -/

omit [DecidableEq K] in
/-- A read touches neither the map, nor the channels, nor the invalidator. -/
@[simp] theorem view_applyRead (s : Inner K V σ) (op : ReadOp V) : view (applyRead cfg s op) = view s := by
  cases op <;> simp [applyRead] <;> rfl

omit [DecidableEq K] in
/-- `apply_reads` takes `count` reads off the channel and touches neither the map nor the
write channel. -/
theorem applyReads_view (s : Inner K V σ) (count : Nat) :
    view (applyReads cfg s count) = (s.cache, s.readOpCh.drop count, s.writeOpCh, s.invalidator) :=
  List.foldlRecOn (motive := fun t => view t = (s.cache, s.readOpCh.drop count, s.writeOpCh, s.invalidator))
    _ _ _ rfl fun t ht op _ => (view_applyRead cfg t op).trans ht

/-- A write only removes keys from the map. -/
theorem applyWrite_keeps (ts : Nat) (s : Inner K V σ) (op : WriteOp K V) : Keeps s (applyWrite cfg ts s op) := by
  cases op with
  | upsert kh e => exact handleUpsert_keeps cfg s kh e ts
  | remove key e => exact .of_view (view_handleRemove cfg s key e)

/-- `apply_writes` takes `count` writes off the channel and only removes keys from the
map. -/
theorem applyWrites_keeps (s : Inner K V σ) (count ts : Nat) :
    Keeps { s with writeOpCh := s.writeOpCh.drop count } (applyWrites cfg s count ts) :=
  Keeps.foldl _ (applyWrite_keeps cfg ts) _ _

/-- A pass of the loop empties both channels, only removes keys from the map, and leaves
the invalidator. -/
theorem syncPass_drains (s : Inner K V σ) (now : Nat) :
    (∀ k e, (syncPass cfg s now).1.cache.lookup k = some e → s.cache.lookup k = some e) ∧
    (syncPass cfg s now).1.readOpCh = [] ∧ (syncPass cfg s now).1.writeOpCh = [] ∧
    (syncPass cfg s now).1.invalidator = s.invalidator ∧ (syncPass cfg s now).2 = false := by
  obtain ⟨s₁, hs₁, hc, hr, hw, hi⟩ : ∃ s₁,
      (if s.readOpCh.length > 0 then applyReads cfg s s.readOpCh.length else s) = s₁ ∧
      s₁.cache = s.cache ∧ s₁.readOpCh = [] ∧ s₁.writeOpCh = s.writeOpCh ∧
      s₁.invalidator = s.invalidator := by
    refine ⟨_, rfl, ?_⟩
    split
    · have h := applyReads_view cfg s s.readOpCh.length
      simp only [view, Prod.mk.injEq, List.drop_length] at h
      exact h
    · exact ⟨rfl, List.eq_nil_of_length_eq_zero (by omega), rfl, rfl⟩
  obtain ⟨s₂, hs₂, hk⟩ : ∃ s₂,
      (if s₁.writeOpCh.length > 0 then applyWrites cfg s₁ s₁.writeOpCh.length now else s₁) = s₂ ∧
      Keeps { s₁ with writeOpCh := [] } s₂ := by
    refine ⟨_, rfl, ?_⟩
    split
    · have h := applyWrites_keeps cfg s₁ s₁.writeOpCh.length now
      rwa [List.drop_length] at h
    · exact .of_view (by simp [view, List.eq_nil_of_length_eq_zero (by omega : s₁.writeOpCh.length = 0)])
  unfold syncPass
  simp only [hs₁, hs₂]
  refine ⟨fun k e h => hc ▸ hk.subMap k e h, hk.readOpCh.trans hr, hk.writeOpCh, hk.invalidator.trans hi, ?_⟩
  simp [hk.readOpCh, hr, hk.writeOpCh, readLogFlushPoint, writeLogFlushPoint]

/-- The loop of `sync`, entered with `should_sync` raised and at least one pass left, makes
exactly one pass. -/
theorem syncLoop_drains (s : Inner K V σ) (now n : Nat) :
    syncLoop cfg now (n + 1) s true = ((syncPass cfg s now).1, false) := by
  have h := (syncPass_drains cfg s now).2.2.2.2
  cases n with
  | zero => simp [syncLoop, h]
  | succ n => simp [syncLoop, h]

omit [DecidableEq K] in
/-- The invalidation phase does nothing, or runs `invalidate_entries` on the invalidator it
found with the flag down and not empty. -/
theorem invalidationPhase_cases {s s' : Inner K V σ} {now : Nat} {task : Option (InvalidationTask K)}
    (h : invalidationPhase cfg s now = .ok (s', task)) :
    (s' = s ∧ task = none) ∨
      ∃ inv, s.invalidator = some inv ∧ inv.isEmpty = false ∧ inv.isTaskRunning = false ∧
        invalidateEntries cfg s inv invalidationBatchSize now = .ok (s', task) := by
  unfold invalidationPhase at h
  split at h
  · split at h
    · rename_i inv hinv
      split at h
      · rename_i hcond
        simp only [Bool.and_eq_true, Bool.not_eq_true'] at hcond
        exact .inr ⟨inv, hinv, hcond.1, hcond.2, h⟩
      · cases h
        exact .inl ⟨rfl, rfl⟩
    · cases h
      exact .inl ⟨rfl, rfl⟩
  · cases h
    exact .inl ⟨rfl, rfl⟩

/-- Everything a cycle can do: one pass of the loop, the sweep when expiry applies, and
then the invalidation phase. -/
theorem sync_cases {s s' : Inner K V σ} {maxRepeats now : Nat}
    {task : Option (InvalidationTask K)} {pace : Option SyncPace}
    (h : sync cfg s maxRepeats now = .ok (s', task, pace)) :
    ∃ s₂, (if cfg.hasExpiry || (syncPass cfg s now).1.hasValidAfter then
        evict cfg (syncPass cfg s now).1 evictionBatchSize now else (syncPass cfg s now).1) = s₂ ∧
      ((s' = s₂ ∧ task = none) ∨
        ∃ inv, s₂.invalidator = some inv ∧ inv.isEmpty = false ∧ inv.isTaskRunning = false ∧
          invalidateEntries cfg s₂ inv invalidationBatchSize now = .ok (s', task)) := by
  refine ⟨_, rfl, ?_⟩
  unfold sync at h
  rw [syncLoop_drains] at h
  dsimp only at h
  split at h
  · cases h
  · simp only [Except.ok.injEq, Prod.mk.injEq] at h
    obtain ⟨rfl, rfl, -⟩ := h
    exact invalidationPhase_cases cfg ‹_›

/-- What a maintenance cycle does to the shared state: it only removes keys from the map,
empties both channels, and changes the invalidator only in its invalidation phase. -/
theorem sync_keeps {s s' : Inner K V σ} {maxRepeats now : Nat}
    {task : Option (InvalidationTask K)} {pace : Option SyncPace}
    (h : sync cfg s maxRepeats now = .ok (s', task, pace)) :
    Keeps { s with readOpCh := [], writeOpCh := [] } { s' with invalidator := s.invalidator } := by
  obtain ⟨hsub, hr, hw, -, -⟩ := syncPass_drains cfg s now
  obtain ⟨s₂, hs₂, hcases⟩ := sync_cases cfg h
  have hev : Keeps (syncPass cfg s now).1 s₂ := by
    rw [← hs₂]
    split
    · exact evict_keeps cfg _ _ _
    · exact .refl _
  have hk : Keeps s₂ { s' with invalidator := s₂.invalidator } := by
    rcases hcases with ⟨rfl, -⟩ | ⟨inv, -, -, -, hinv⟩
    · exact .refl _
    · exact invalidateEntries_keeps cfg hinv
  exact ⟨fun k e he => hsub k e (hev.subMap k e (hk.subMap k e he)),
    hk.readOpCh.trans (hev.readOpCh.trans hr), hk.writeOpCh.trans (hev.writeOpCh.trans hw), rfl⟩

/-! ## The cycle, one step at a time -/

/-- One iteration of a sweep only removes a key. -/
theorem sweepStep_keeps {target : SweepTarget} {now va : Nat} {s s' : Inner K V σ}
    (h : sweepStep cfg target now va s = some s') : Keeps s s' := by
  cases target <;> rw [sweepStep] at h <;> refine removeExpiredStep_keeps _ _ _ _ _ _ _ _ ?_ ?_ ?_ h
  · exact fun _ _ => rfl
  · exact fun _ _ _ => view_handleRemove cfg _ _ _
  · exact fun _ _ => by simp
  · exact fun _ _ => view_setAoDeque _ _ _
  · exact fun _ _ _ => view_handleRemoveWithDeques cfg _ _ _ _
  · exact fun _ _ => by simp

/-- Everything one step of a cycle can do: bookkeeping that changes nothing, one read or
one write taken off its channel and handled, one iteration of a sweep, or the invalidation
phase, the only step that submits a task. -/
theorem cycleStep_cases {s s' : Inner K V σ} {now : Nat} {pc : CyclePc} {next : Option CyclePc}
    {task : Option (InvalidationTask K)} (h : cycleStep cfg s now pc = .ok (s', next, task)) :
    (s' = s ∧ task = none) ∨
      (∃ op rest, s.readOpCh = op :: rest ∧ s' = applyRead cfg { s with readOpCh := rest } op ∧
        task = none) ∨
      (∃ ts op rest, s.writeOpCh = op :: rest ∧ s' = applyWrite cfg ts { s with writeOpCh := rest } op ∧
        task = none) ∨
      (∃ target sweepNow va, sweepStep cfg target sweepNow va s = some s' ∧ task = none) ∨
      invalidationPhase cfg s now = .ok (s', task) := by
  cases pc with
  | loop calls shouldSync =>
    simp only [cycleStep] at h
    split at h <;> cases h <;> exact .inl ⟨rfl, rfl⟩
  | reads calls count =>
    cases count with
    | zero => cases h; exact .inl ⟨rfl, rfl⟩
    | succ n =>
      simp only [cycleStep] at h
      split at h <;> cases h
      · exact .inr (.inl ⟨_, _, ‹_›, rfl, rfl⟩)
      · exact .inl ⟨rfl, rfl⟩
  | writes calls count ts =>
    cases count with
    | zero => cases h; exact .inl ⟨rfl, rfl⟩
    | succ n =>
      simp only [cycleStep] at h
      split at h <;> cases h
      · exact .inr (.inr (.inl ⟨_, _, _, ‹_›, rfl, rfl⟩))
      · exact .inl ⟨rfl, rfl⟩
  | sweep target left sweepNow va =>
    cases left with
    | zero => cases h; exact .inl ⟨rfl, rfl⟩
    | succ n =>
      simp only [cycleStep] at h
      split at h <;> cases h
      · exact .inr (.inr (.inr (.inl ⟨_, _, _, ‹_›, rfl⟩)))
      · exact .inl ⟨rfl, rfl⟩
  | invalidate =>
    simp only [cycleStep] at h
    split at h <;> cases h
    exact .inr (.inr (.inr (.inr ‹_›)))

/-- One step of a cycle only removes keys from the map. -/
theorem cycleStep_subMap {s s' : Inner K V σ} {now : Nat} {pc : CyclePc} {next : Option CyclePc}
    {task : Option (InvalidationTask K)} (h : cycleStep cfg s now pc = .ok (s', next, task)) :
    ∀ k e, s'.cache.lookup k = some e → s.cache.lookup k = some e := by
  rcases cycleStep_cases cfg h with ⟨rfl, -⟩ | ⟨op, rest, -, rfl, -⟩ | ⟨ts, op, rest, -, rfl, -⟩ |
    ⟨target, sweepNow, va, hs, -⟩ | hinv
  · exact fun _ _ he => he
  · exact (Keeps.of_view (view_applyRead cfg _ op)).subMap
  · exact (applyWrite_keeps cfg ts _ op).subMap
  · exact (sweepStep_keeps cfg hs).subMap
  · rcases invalidationPhase_cases cfg hinv with ⟨rfl, -⟩ | ⟨inv, -, -, -, hie⟩
    · exact fun _ _ he => he
    · exact (invalidateEntries_keeps cfg hie).subMap

/-! ## The invalidation task -/

/-- The scan's `remove_if` on the map removes the key with the entry it holds, or
nothing. -/
theorem removeKeyValueIf_cases {s s' : Inner K V σ} {key : K} {cond : ValueEntry V → Bool}
    {o : Option (ValueEntry V)} (h : getOrRemoveEntry.removeKeyValueIf s key cond = (o, s')) :
    (o = none ∧ s' = s) ∨
      ∃ e, o = some e ∧ s.cache.lookup key = some e ∧ s' = { s with cache := s.cache.erase key } := by
  change (match s.cache.lookup key with
    | some e => if cond e then (some e, { s with cache := s.cache.erase key }) else (none, s)
    | none => (none, s)) = (o, s') at h
  split at h
  · split at h <;> cases h
    · exact .inr ⟨_, rfl, ‹_›, rfl⟩
    · exact .inl ⟨rfl, rfl⟩
  · cases h
    exact .inl ⟨rfl, rfl⟩

theorem removeKeyValueIf_keeps {s : Inner K V σ} {key : K} {cond : ValueEntry V → Bool}
    {r : Option (ValueEntry V)} {s' : Inner K V σ}
    (h : getOrRemoveEntry.removeKeyValueIf s key cond = (r, s')) : Keeps s s' := by
  obtain ⟨-, rfl⟩ | ⟨_, -, -, rfl⟩ := removeKeyValueIf_cases h
  · exact .refl _
  · exact .erase s key

/-- `do_execute` only removes keys from the map and leaves the channels. -/
theorem doExecute_keeps (task : InvalidationTask K) (predicates : List (PredicateImplLite K V))
    (s : Inner K V σ) : Keeps s (InvalidationTask.doExecute getOrRemoveEntry task predicates s).2 := by
  have hstep : ∀ (acc : List (K × ValueEntry V) × Option Nat × Inner K V σ) (c : KeyDateLite K),
      Keeps acc.2.2 (InvalidationTask.scanStep getOrRemoveEntry predicates acc c).2.2 := by
    rintro ⟨inv, newest, s⟩ c
    unfold InvalidationTask.scanStep InvalidationTask.invalidate
    dsimp only
    split
    · split <;> exact removeKeyValueIf_keeps ‹_›
    · exact .refl s
  exact List.foldlRecOn (motive := fun acc => Keeps s acc.2.2) task.candidates _ ([], none, s) (.refl s)
    fun acc h c _ => h.trans (hstep acc c)

/-- The scan changes nothing but the map. -/
theorem doExecute_frame (task : InvalidationTask K) (predicates : List (PredicateImplLite K V))
    (s : Inner K V σ) :
    ∃ c, (InvalidationTask.doExecute getOrRemoveEntry task predicates s).2 = { s with cache := c } := by
  have hstep : ∀ (acc : List (K × ValueEntry V) × Option Nat × Inner K V σ) (cand : KeyDateLite K),
      (∃ c, acc.2.2 = { s with cache := c }) →
      ∃ c, (InvalidationTask.scanStep getOrRemoveEntry predicates acc cand).2.2 = { s with cache := c } := by
    rintro ⟨inv, newest, _⟩ cand ⟨c, rfl⟩
    unfold InvalidationTask.scanStep InvalidationTask.invalidate
    dsimp only
    split
    · split <;> rename_i heq <;> obtain ⟨-, rfl⟩ | ⟨_, -, -, rfl⟩ := removeKeyValueIf_cases heq <;>
        exact ⟨_, rfl⟩
    · exact ⟨c, rfl⟩
  exact List.foldlRecOn (motive := fun acc : List (K × ValueEntry V) × Option Nat × Inner K V σ =>
    ∃ c, acc.2.2 = { s with cache := c }) task.candidates _ ([], none, s) ⟨s.cache, rfl⟩
    fun acc h cand _ => hstep acc cand h

/-! ## The hot path -/

omit [DecidableEq K] in
/-- A closure call allocates an entry: it changes only the cells, the node pointers and the
allocation counter. -/
theorem callClosure_frame (key : K) (hash : Nat) (value : V) (s : Inner K V σ)
    (l : InsertLocals K V) (c : Invocation V) :
    ∃ infos qNodes nextId, (callClosure key hash value (s, l) c).2.1 = { s with infos, qNodes, nextId } := by
  cases c <;> exact ⟨_, _, _, rfl⟩

omit [DecidableEq K] in
/-- The end of `do_insert_with_hash` changes only node pointers. -/
theorem pickWriteOp_frame {s s' : Inner K V σ} {l : InsertLocals K V} {op : WriteOp K V}
    (h : pickWriteOp s l = some (op, s')) : ∃ qNodes, s' = { s with qNodes } := by
  unfold pickWriteOp at h
  split at h
  · cases h
    exact ⟨_, rfl⟩
  · cases h
    exact ⟨_, rfl⟩
  · split at h <;> cases h <;> exact ⟨_, rfl⟩
  · cases h

/-- `remove_entry` takes the key's entry out of the map, or finds none and changes
nothing. -/
theorem removeEntry_cases {s s' : Inner K V σ} {key : K} {o : Option (K × ValueEntry V)}
    (h : s.removeEntry key = (o, s')) :
    (o = none ∧ s' = s) ∨
      ∃ e, o = some (key, e) ∧ s.cache.lookup key = some e ∧ s' = { s with cache := s.cache.erase key } := by
  unfold removeEntry at h
  split at h <;> cases h
  · exact .inr ⟨_, rfl, ‹_›, rfl⟩
  · exact .inl ⟨rfl, rfl⟩

/-- A read changes nothing but the read channel. -/
theorem getWithHash_frame (s : Inner K V σ) (key : K) (hash now : Nat) :
    ∃ ch, (s.getWithHash cfg key hash now).2 = { s with readOpCh := ch } := by
  unfold getWithHash recordReadOp
  split
  · split <;> exact ⟨_, rfl⟩
  · split <;> split <;> exact ⟨_, rfl⟩

end Inner

end Moka
