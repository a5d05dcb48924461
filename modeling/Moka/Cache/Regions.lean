import Moka.Cache.Frame

/-!
# Only probation holds access-order nodes

The cache keeps one access-order deque per region of W-TinyLFU (`CacheRegion`): window,
probation and protected. In this version of the source only probation is ever filled:
`handle_admit` (base_cache.rs:906–926) pushes each admitted entry to the back of
probation, and every other deque operation of the cycle moves or unlinks a node within the
deque it is in. So the window and protected deques stay empty in every state a run
reaches: no entry waits in the window or is promoted to protected, and the sweeps over
those two deques in `evict` (base_cache.rs:960–983) find nothing to do.

## Main results

- `OnlyProbation.setAoDeque`: replacing an access-order deque by one that is empty when the
  old one was keeps the window and protected deques empty.
- `handleUpsert_onlyProbation`, `evict_onlyProbation`, `sync_onlyProbation`: the steps of
  the maintenance cycle keep them empty.
- `Cache.onlyProbation_step`: so does every step of the cache.
- **`reachable_window_protected_empty`**: in every reachable state the window and
  protected deques hold no node, and the sweeps over them leave the state as it is.
-/

namespace Moka

namespace Inner

variable {K V σ : Type}

/-- The window and protected deques hold no node. -/
structure OnlyProbation (s : Inner K V σ) : Prop where
  window_nil : s.window.nodes = []
  protected_nil : s.protectedDeque.nodes = []

namespace OnlyProbation

variable {s : Inner K V σ}

/-! ## The deque operations -/

theorem setAoDeque (h : OnlyProbation s) {r : CacheRegion} {d : Deque (KeyHashDate K)}
    (hd : (s.aoDeque r).nodes = [] → d.nodes = []) : OnlyProbation (s.setAoDeque r d) := by
  cases r with
  | window => exact ⟨hd h.window_nil, h.protected_nil⟩
  | mainProbation => exact ⟨h.window_nil, h.protected_nil⟩
  | mainProtected => exact ⟨h.window_nil, hd h.protected_nil⟩
  | writeOrder => exact h

theorem setQNodes (h : OnlyProbation s) (e : ValueEntry V) (f : DeqNodes → DeqNodes) :
    OnlyProbation (s.setQNodes e f) := ⟨h.1, h.2⟩

theorem moveToBackAo (h : OnlyProbation s) (e : ValueEntry V) : OnlyProbation (s.moveToBackAo e) := by
  unfold Inner.moveToBackAo
  split
  · split
    · exact h.setAoDeque (Deque.moveToBack_nodes_nil · _)
    · exact ⟨h.1, h.2⟩
  · exact h

theorem moveToBackAoInDeque (h : OnlyProbation s) (r : CacheRegion) (e : ValueEntry V) :
    OnlyProbation (s.moveToBackAoInDeque r e) := by
  unfold Inner.moveToBackAoInDeque
  split
  · split
    · exact h.setAoDeque (Deque.moveToBack_nodes_nil · _)
    · exact ⟨h.1, h.2⟩
  · exact h

theorem unlinkAo (h : OnlyProbation s) (e : ValueEntry V) : OnlyProbation (s.unlinkAo e) := by
  unfold Inner.unlinkAo
  split
  · split
    · exact (h.setAoDeque (Deque.unlink_nodes_nil · _)).setQNodes _ _
    · exact ⟨h.1, h.2⟩
  · exact h

theorem unlinkAoFromDeque (h : OnlyProbation s) (r : CacheRegion) (e : ValueEntry V) :
    OnlyProbation (s.unlinkAoFromDeque r e) := by
  unfold Inner.unlinkAoFromDeque
  split
  · split
    · exact (h.setAoDeque (Deque.unlink_nodes_nil · _)).setQNodes _ _
    · exact ⟨h.1, h.2⟩
  · exact h

theorem moveToBackWo (h : OnlyProbation s) (e : ValueEntry V) : OnlyProbation (s.moveToBackWo e) := by
  unfold Inner.moveToBackWo
  split <;> (try split) <;> exact ⟨h.1, h.2⟩

theorem unlinkWo (h : OnlyProbation s) (e : ValueEntry V) : OnlyProbation (s.unlinkWo e) := by
  unfold Inner.unlinkWo
  split <;> (try split) <;> exact ⟨h.1, h.2⟩

end OnlyProbation

/-! ## The maintenance cycle -/

variable (cfg : Config K V σ)

/-- `handle_admit` pushes to probation only. -/
theorem handleAdmit_onlyProbation {s : Inner K V σ} (h : OnlyProbation s) (kh : KeyHash K)
    (e : ValueEntry V) (w : Nat) : OnlyProbation (handleAdmit cfg s kh e w) := by
  unfold handleAdmit
  split <;> exact ⟨h.1, h.2⟩

theorem handleRemoveWith_onlyProbation {unlinkAo : Inner K V σ → ValueEntry V → Inner K V σ}
    (hunlink : ∀ s e, OnlyProbation s → OnlyProbation (unlinkAo s e)) {s : Inner K V σ}
    (h : OnlyProbation s) (key : K) (entry : ValueEntry V) :
    OnlyProbation (handleRemoveWith cfg unlinkAo s key entry) := by
  unfold handleRemoveWith
  refine OnlyProbation.setQNodes ?_ _ _
  split
  · refine (hunlink _ _ ?_).unlinkWo _
    exact ⟨h.1, h.2⟩
  · exact h

theorem handleRemove_onlyProbation {s : Inner K V σ} (h : OnlyProbation s) (key : K) (entry : ValueEntry V) :
    OnlyProbation (handleRemove cfg s key entry) :=
  handleRemoveWith_onlyProbation cfg (fun _ e h => h.unlinkAo e) h key entry

theorem moveSkipped_onlyProbation {s : Inner K V σ} (h : OnlyProbation s)
    (skipped : List (DeqNode (KeyHashDate K))) : OnlyProbation (moveSkipped s skipped) :=
  List.foldlRecOn (motive := OnlyProbation) skipped _ s h fun _ h _ _ => by
    split <;> exact ⟨h.1, h.2⟩

theorem applyRead_onlyProbation {s : Inner K V σ} (h : OnlyProbation s) (op : ReadOp V) :
    OnlyProbation (applyRead cfg s op) := by
  cases op with
  | hit hash entry ts =>
    refine OnlyProbation.moveToBackAo ?_ _
    exact ⟨h.1, h.2⟩
  | miss hash => exact ⟨h.1, h.2⟩

theorem applyReads_onlyProbation {s : Inner K V σ} (h : OnlyProbation s) (count : Nat) :
    OnlyProbation (applyReads cfg s count) :=
  List.foldlRecOn (motive := OnlyProbation) _ _ _ ⟨h.1, h.2⟩ fun _ h op _ => applyRead_onlyProbation cfg h op

variable [DecidableEq K]

theorem removeVictims_onlyProbation :
    ∀ (s : Inner K V σ) (skipped victims : List (DeqNode (KeyHashDate K))), OnlyProbation s →
    OnlyProbation (removeVictims cfg s skipped victims).1
  | _, _, [], h => h
  | s, skipped, victim :: rest, h => by
    unfold removeVictims
    split
    · split
      · refine removeVictims_onlyProbation _ _ rest (handleRemove_onlyProbation cfg ?_ _ _)
        exact ⟨h.1, h.2⟩
      · exact removeVictims_onlyProbation s _ rest h
    · exact ⟨h.1, h.2⟩

theorem handleUpsert_onlyProbation {s : Inner K V σ} (h : OnlyProbation s) (kh : KeyHash K)
    (e : ValueEntry V) (ts : Nat) : OnlyProbation (handleUpsert cfg s kh e ts) := by
  have h₀ : OnlyProbation ((s.setLastAccessed e ts).setLastModified e ts) := ⟨h.1, h.2⟩
  unfold handleUpsert
  dsimp only
  generalize (s.setLastAccessed e ts).setLastModified e ts = s₀ at h₀
  split
  · exact (h₀.moveToBackAo _).moveToBackWo _
  · split
    · exact handleAdmit_onlyProbation cfg h₀ _ _ _
    · split
      · exact ⟨h₀.1, h₀.2⟩
      · split
        · rename_i victims skipped _
          have hv := removeVictims_onlyProbation cfg s₀ skipped victims h₀
          generalize removeVictims cfg s₀ skipped victims = r at hv ⊢
          exact moveSkipped_onlyProbation (handleAdmit_onlyProbation cfg hv _ _ _) _
        · refine moveSkipped_onlyProbation ?_ _
          exact ⟨h₀.1, h₀.2⟩

theorem applyWrite_onlyProbation {s : Inner K V σ} (h : OnlyProbation s) (ts : Nat) (op : WriteOp K V) :
    OnlyProbation (applyWrite cfg ts s op) := by
  cases op with
  | upsert kh entry => exact handleUpsert_onlyProbation cfg h kh entry ts
  | remove key entry => exact handleRemove_onlyProbation cfg h key entry

theorem applyWrites_onlyProbation {s : Inner K V σ} (h : OnlyProbation s) (count ts : Nat) :
    OnlyProbation (applyWrites cfg s count ts) :=
  List.foldlRecOn (motive := OnlyProbation) _ _ _ ⟨h.1, h.2⟩ fun _ h op _ => applyWrite_onlyProbation cfg h ts op

theorem syncPass_onlyProbation {s : Inner K V σ} (h : OnlyProbation s) (now : Nat) :
    OnlyProbation (syncPass cfg s now).1 := by
  have h₁ : OnlyProbation (if s.readOpCh.length > 0 then applyReads cfg s s.readOpCh.length else s) := by
    split
    · exact applyReads_onlyProbation cfg h _
    · exact h
  unfold syncPass
  dsimp only
  generalize (if s.readOpCh.length > 0 then applyReads cfg s s.readOpCh.length else s) = s₁ at h₁
  split
  · exact applyWrites_onlyProbation cfg h₁ _ _
  · exact h₁

section Sweep

variable {α : Type} (deq : Inner K V σ → Deque α) (setDeq : Inner K V σ → Deque α → Inner K V σ)
  (nodeKey : α → K) (nodeTs : Inner K V σ → DeqNode α → Option Nat)
  (entryTs : Inner K V σ → ValueEntry V → Option Nat) (isExpired : Option Nat → Bool)
  (remove : Inner K V σ → K → ValueEntry V → Inner K V σ)
  (moveUpdated : Inner K V σ → ValueEntry V → Inner K V σ)

/-- An iteration of the sweep keeps the two deques empty when its handlers do, and when
moving a node to the back of the deque it sweeps does. -/
theorem removeExpiredStep_onlyProbation
    (hset : ∀ s n, OnlyProbation s → OnlyProbation (setDeq s ((deq s).moveToBack n)))
    (hremove : ∀ s k e, OnlyProbation s → OnlyProbation (remove s k e))
    (hmove : ∀ s e, OnlyProbation s → OnlyProbation (moveUpdated s e)) {s s' : Inner K V σ}
    (h : removeExpiredStep deq setDeq nodeKey nodeTs entryTs isExpired remove moveUpdated s = some s')
    (hs : OnlyProbation s) : OnlyProbation s' := by
  unfold removeExpiredStep at h
  split at h
  · cases h
  · split at h
    · cases h
    · dsimp only at h
      split at h
      · split at h
        · cases h
          refine hremove _ _ _ ?_
          exact ⟨hs.1, hs.2⟩
        · split at h <;> cases h
          exact hmove _ _ hs
      · cases h
        exact hset _ _ hs

/-- The sweep keeps the two deques empty under the same conditions. -/
theorem removeExpired_onlyProbation
    (hset : ∀ s n, OnlyProbation s → OnlyProbation (setDeq s ((deq s).moveToBack n)))
    (hremove : ∀ s k e, OnlyProbation s → OnlyProbation (remove s k e))
    (hmove : ∀ s e, OnlyProbation s → OnlyProbation (moveUpdated s e)) :
    ∀ (n : Nat) (s : Inner K V σ), OnlyProbation s →
    OnlyProbation (removeExpired deq setDeq nodeKey nodeTs entryTs isExpired remove moveUpdated n s)
  | 0, _, h => h
  | n + 1, s, h => by
    unfold removeExpired
    split
    · exact removeExpired_onlyProbation hset hremove hmove n _
        (removeExpiredStep_onlyProbation deq setDeq nodeKey nodeTs entryTs isExpired remove moveUpdated
          hset hremove hmove ‹_› h)
    · exact h

/-- A sweep over a deque with no node leaves the state as it is. -/
theorem removeExpired_of_nil {s : Inner K V σ} (h : (deq s).nodes = []) (n : Nat) :
    removeExpired deq setDeq nodeKey nodeTs entryTs isExpired remove moveUpdated n s = s := by
  cases n <;> simp [removeExpired, removeExpiredStep, Deque.peekFront, h]

end Sweep

theorem removeExpiredAo_onlyProbation {s : Inner K V σ} (h : OnlyProbation s) (r : CacheRegion)
    (batchSize now : Nat) : OnlyProbation (removeExpiredAo cfg r batchSize now s) :=
  removeExpired_onlyProbation _ _ _ _ _ _ _ _
    (fun _ _ h => h.setAoDeque (Deque.moveToBack_nodes_nil · _))
    (fun _ k e h => handleRemoveWith_onlyProbation cfg (fun _ e h => h.unlinkAoFromDeque r e) h k e)
    (fun _ e h => (h.moveToBackAoInDeque r e).moveToBackWo e) _ _ h

theorem removeExpiredWo_onlyProbation {s : Inner K V σ} (h : OnlyProbation s) (batchSize now : Nat) :
    OnlyProbation (removeExpiredWo cfg batchSize now s) :=
  removeExpired_onlyProbation (fun s => s.writeOrder) (fun s d => { s with writeOrder := d }) KeyDate.key
    _ _ _ (handleRemove cfg) (fun s e => (s.moveToBackAo e).moveToBackWo e) (fun _ _ h => ⟨h.1, h.2⟩)
    (fun _ k e h => handleRemove_onlyProbation cfg h k e) (fun _ e h => (h.moveToBackAo e).moveToBackWo e)
    _ _ h

theorem evict_onlyProbation {s : Inner K V σ} (h : OnlyProbation s) (batchSize now : Nat) :
    OnlyProbation (evict cfg s batchSize now) := by
  have hwo : OnlyProbation (if cfg.isWriteOrderQueueEnabled then removeExpiredWo cfg batchSize now s else s) := by
    split
    · exact removeExpiredWo_onlyProbation cfg h _ _
    · exact h
  unfold evict
  dsimp only
  generalize (if cfg.isWriteOrderQueueEnabled then removeExpiredWo cfg batchSize now s else s) = s₁ at hwo
  split
  · exact removeExpiredAo_onlyProbation cfg (removeExpiredAo_onlyProbation cfg
      (removeExpiredAo_onlyProbation cfg hwo _ _ _) _ _ _) _ _ _
  · exact hwo

omit [DecidableEq K] in
theorem processInvalidationResult_onlyProbation {s s' : Inner K V σ}
    {inv inv' : Invalidator K V (ValueEntry V)} (h : processInvalidationResult cfg s inv = .ok (s', inv'))
    (hs : OnlyProbation s) : OnlyProbation s' := by
  unfold processInvalidationResult at h
  split at h
  · cases h
  · cases h
    exact hs
  · rename_i res _ _
    simp only [Except.ok.injEq, Prod.mk.injEq] at h
    obtain ⟨rfl, -⟩ := h
    have h₁ := List.foldlRecOn (motive := OnlyProbation) res.invalidated
      (fun s kv => handleRemove cfg s kv.1 kv.2) s hs fun s h kv _ => handleRemove_onlyProbation cfg h kv.1 kv.2
    split_ifs <;> exact ⟨h₁.1, h₁.2⟩

omit [DecidableEq K] in
theorem submitInvalidationTask_onlyProbation {s s' : Inner K V σ}
    {inv inv' : Invalidator K V (ValueEntry V)} {batchSize now : Nat} {task : Option (InvalidationTask K)}
    (h : submitInvalidationTask s inv batchSize now = .ok (s', inv', task)) (hs : OnlyProbation s) :
    OnlyProbation s' := by
  unfold submitInvalidationTask at h
  split at h
  · cases h
    exact hs
  · dsimp only at h
    split at h
    · split at h <;> cases h
      exact ⟨hs.1, hs.2⟩
    · cases h
      exact ⟨hs.1, hs.2⟩

omit [DecidableEq K] in
theorem invalidateEntries_onlyProbation {s s' : Inner K V σ} {inv : Invalidator K V (ValueEntry V)}
    {batchSize now : Nat} {task : Option (InvalidationTask K)}
    (h : invalidateEntries cfg s inv batchSize now = .ok (s', task)) (hs : OnlyProbation s) :
    OnlyProbation s' := by
  unfold invalidateEntries at h
  split at h
  · cases h
  · rename_i s₁ inv₁ h₁
    split at h
    · cases h
    · rename_i s₂ inv₂ task₂ h₂
      cases h
      have := submitInvalidationTask_onlyProbation h₂ (processInvalidationResult_onlyProbation cfg h₁ hs)
      exact ⟨this.1, this.2⟩

/-- A maintenance cycle keeps the window and protected deques empty. -/
theorem sync_onlyProbation {s s' : Inner K V σ} {maxRepeats now : Nat}
    {task : Option (InvalidationTask K)} {pace : Option SyncPace}
    (h : sync cfg s maxRepeats now = .ok (s', task, pace)) (hs : OnlyProbation s) : OnlyProbation s' := by
  obtain ⟨s₂, hs₂, hcases⟩ := sync_cases cfg h
  have h₂ : OnlyProbation s₂ := by
    have h₁ := syncPass_onlyProbation cfg hs now
    rw [← hs₂]
    split
    · exact evict_onlyProbation cfg h₁ _ _
    · exact h₁
  rcases hcases with ⟨rfl, -⟩ | ⟨inv, -, -, -, hinv⟩
  · exact h₂
  · exact invalidateEntries_onlyProbation cfg hinv h₂

omit [DecidableEq K] in
theorem invalidationPhase_onlyProbation {s s' : Inner K V σ} {now : Nat} {task : Option (InvalidationTask K)}
    (h : invalidationPhase cfg s now = .ok (s', task)) (hs : OnlyProbation s) : OnlyProbation s' := by
  rcases invalidationPhase_cases cfg h with ⟨rfl, -⟩ | ⟨inv, -, -, -, hinv⟩
  · exact hs
  · exact invalidateEntries_onlyProbation cfg hinv hs

theorem sweepStep_onlyProbation {target : SweepTarget} {now va : Nat} {s s' : Inner K V σ}
    (h : sweepStep cfg target now va s = some s') (hs : OnlyProbation s) : OnlyProbation s' := by
  cases target <;> rw [sweepStep] at h <;> refine removeExpiredStep_onlyProbation _ _ _ _ _ _ _ _ ?_ ?_ ?_ h hs
  · exact fun _ _ h => ⟨h.1, h.2⟩
  · exact fun _ k e h => handleRemove_onlyProbation cfg h k e
  · exact fun _ e h => (h.moveToBackAo e).moveToBackWo e
  · exact fun _ _ h => h.setAoDeque (Deque.moveToBack_nodes_nil · _)
  · exact fun _ k e h => handleRemoveWith_onlyProbation cfg (fun _ e h => h.unlinkAoFromDeque _ e) h k e
  · exact fun _ e h => (h.moveToBackAoInDeque _ e).moveToBackWo e

/-- One step of a cycle keeps the window and protected deques empty. -/
theorem cycleStep_onlyProbation {s s' : Inner K V σ} {now : Nat} {pc : CyclePc} {next : Option CyclePc}
    {task : Option (InvalidationTask K)} (h : cycleStep cfg s now pc = .ok (s', next, task))
    (hs : OnlyProbation s) : OnlyProbation s' := by
  rcases cycleStep_cases cfg h with ⟨rfl, -⟩ | ⟨op, rest, -, rfl, -⟩ | ⟨ts, op, rest, -, rfl, -⟩ |
    ⟨target, sweepNow, va, hsw, -⟩ | hinv
  · exact hs
  · refine applyRead_onlyProbation cfg ?_ op
    exact ⟨hs.1, hs.2⟩
  · refine applyWrite_onlyProbation cfg ?_ ts op
    exact ⟨hs.1, hs.2⟩
  · exact sweepStep_onlyProbation cfg hsw hs
  · exact invalidationPhase_onlyProbation cfg hinv hs

/-! ## The hot path -/

/-- An insert touches only the map, the cells and the write channel. -/
theorem insert_onlyProbation {s s' : Inner K V σ} {key : K} {value : V}
    (h : s.insert cfg key value = some s') (hs : OnlyProbation s) : OnlyProbation s' := by
  unfold insert at h
  cases hl : s.cache.lookup key with
  | none =>
    rw [hl] at h
    cases h
    exact ⟨hs.1, hs.2⟩
  | some old =>
    rw [hl] at h
    cases h
    exact ⟨hs.1, hs.2⟩

theorem remove_onlyProbation {s : Inner K V σ} (h : OnlyProbation s) (key : K) :
    OnlyProbation (s.remove key) := by
  unfold Inner.remove removeEntry
  cases s.cache.lookup key <;> exact ⟨h.1, h.2⟩

end Inner

namespace Cache

variable {K V σ : Type} [DecidableEq K] (cfg : Config K V σ)

/-- Every step of the cache keeps the window and protected deques empty. -/
theorem onlyProbation_step {s s' : Cache K V σ} (h : s.inner.OnlyProbation) (a : CacheAction K V)
    (hs : step cfg s a = some s') : s'.inner.OnlyProbation := by
  cases a with
  | insert k v =>
    obtain ⟨inner, hins, rfl⟩ := step_insert cfg hs
    exact Inner.insert_onlyProbation cfg hins h
  | insertStart k v =>
    cases hs
    exact h
  | insertCall i commit =>
    obtain ⟨c, -, -, rfl⟩ := step_insertCall cfg hs
    obtain ⟨infos, qNodes, nextId, hr⟩ := Inner.callClosure_frame c.key (cfg.hasher c.key) c.value
      s.inner c.locals (closureFor s.inner c.key)
    dsimp only
    rw [hr]
    split <;> exact ⟨h.1, h.2⟩
  | insertPick i =>
    obtain ⟨c, op, inner, -, -, hp, rfl⟩ := step_insertPick cfg hs
    obtain ⟨qNodes, rfl⟩ := Inner.pickWriteOp_frame hp
    exact ⟨h.1, h.2⟩
  | remove k =>
    cases hs
    exact Inner.remove_onlyProbation h k
  | removeStart k =>
    obtain ⟨o, inner, hr, rfl⟩ := step_removeStart cfg hs
    rcases Inner.removeEntry_cases hr with ⟨-, rfl⟩ | ⟨e, -, -, rfl⟩ <;> exact ⟨h.1, h.2⟩
  | send i =>
    obtain ⟨op, -, rfl⟩ := step_send cfg hs
    exact ⟨h.1, h.2⟩
  | get k =>
    cases hs
    obtain ⟨ch, hg⟩ := Inner.getWithHash_frame cfg s.inner k (cfg.hasher k) s.now
    rw [hg]
    exact ⟨h.1, h.2⟩
  | invalidateAll =>
    cases hs
    exact ⟨h.1, h.2⟩
  | invalidateEntriesIf f =>
    cases hs
    unfold Inner.invalidateEntriesIf
    split <;> exact ⟨h.1, h.2⟩
  | sync =>
    obtain ⟨inner, task, pace, -, hsync, -, rfl⟩ := step_sync cfg hs
    cases task <;> exact Inner.sync_onlyProbation cfg hsync h
  | syncStep =>
    rcases step_syncStep cfg hs with ⟨-, rfl⟩ | ⟨pc, inner, next, task, -, hc, -, rfl⟩
    · exact h
    · cases task <;> exact Inner.cycleStep_onlyProbation cfg hc h
  | scanApply =>
    obtain ⟨task, c, rest, -, -, -, rfl | rfl⟩ := step_scanApply cfg hs <;> exact h
  | scanInvalidate =>
    obtain ⟨task, c, rest, o, inner, -, -, hinv, rfl⟩ := step_scanInvalidate cfg hs
    rcases Inner.removeKeyValueIf_cases hinv with ⟨-, rfl⟩ | ⟨e, -, -, rfl⟩ <;> exact ⟨h.1, h.2⟩
  | taskExecute =>
    obtain ⟨task, -, -, rfl⟩ := step_taskExecute cfg hs
    exact h
  | taskStore =>
    obtain ⟨res, inv, -, -, rfl⟩ := step_taskStore cfg hs
    exact ⟨h.1, h.2⟩
  | taskClear =>
    obtain ⟨inv, -, -, rfl⟩ := step_taskClear cfg hs
    exact ⟨h.1, h.2⟩
  | tick d =>
    cases hs
    exact h

theorem Reachable.onlyProbation {sketch : σ} {s : Cache K V σ} (h : Reachable cfg sketch s) :
    s.inner.OnlyProbation := by
  induction h with
  | init => exact ⟨rfl, rfl⟩
  | step a _ hs ih => exact onlyProbation_step cfg ih a hs

/-- **Only probation holds access-order nodes.** In every state a run from a new cache
reaches, the window and protected deques hold no node, and the sweeps `evict` makes over
them leave the state as it is. -/
theorem reachable_window_protected_empty {sketch : σ} {s : Cache K V σ} (h : Reachable cfg sketch s) :
    s.inner.window.nodes = [] ∧ s.inner.protectedDeque.nodes = [] ∧
      ∀ batchSize now, Inner.removeExpiredAo cfg .window batchSize now s.inner = s.inner ∧
        Inner.removeExpiredAo cfg .mainProtected batchSize now s.inner = s.inner := by
  have hp := Reachable.onlyProbation cfg h
  exact ⟨hp.window_nil, hp.protected_nil, fun _ _ =>
    ⟨Inner.removeExpired_of_nil _ _ _ _ _ _ _ _ hp.window_nil _,
      Inner.removeExpired_of_nil _ _ _ _ _ _ _ _ hp.protected_nil _⟩⟩

/-- After `lightThenHeavier`, whose sync admits key 0 to probation, the window and
protected deques are still empty. -/
theorem reachable_window_protected_empty_after_sync :
    let s := (run valueWeighedConfig (init valueWeighedConfig ()) lightThenHeavier).getD
      (init valueWeighedConfig ())
    Reachable valueWeighedConfig () s ∧
      (s.inner.window.nodes = [] ∧ s.inner.protectedDeque.nodes = [] ∧
        ∀ batchSize now, Inner.removeExpiredAo valueWeighedConfig .window batchSize now s.inner = s.inner ∧
          Inner.removeExpiredAo valueWeighedConfig .mainProtected batchSize now s.inner = s.inner) :=
  have h := reachable_of_run valueWeighedConfig lightThenHeavier .init
    (Option.getD_of_ne_none (Option.isSome_iff_ne_none.1 (by decide)) (init valueWeighedConfig ())).symm
  ⟨h, reachable_window_protected_empty valueWeighedConfig h⟩

end Cache

end Moka
