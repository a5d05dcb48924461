import Moka.Cache.Abstract
import Moka.Cache.Removal
import Moka.Cache.Pool

/-!
# An unbounded cache keeps every write

`get_returns_last_write` allows a cache that drops entries, and this one does: admission,
eviction, expiry and invalidation all remove keys. With no maximum capacity, no TTL and
no TTI, none of them can. `has_enough_capacity` always holds, so `handle_upsert`
(base_cache.rs:746–825) finds its entry admitted or admits it and never removes a key;
`evict` runs only under a TTL, a TTI or a `valid_after` (base_cache.rs:669–671), which
only `invalidate_all` sets; and while no predicate is registered the invalidator is
empty, so the cycle submits no scan (base_cache.rs:673–684) and `get` applies no
predicate (invalidator.rs:145–153). The map then holds exactly the last writes.

## Main results

- `handleUpsert_settled`: with no capacity, `handle_upsert` leaves the map, the
  invalidator and `valid_after`.
- `sync_settled`: a cycle then leaves the map, the invalidator and `valid_after`, and
  submits no task.
- `Cache.exact_step`: each step that is not an invalidation keeps the map equal to the
  abstract map of last writes, stepped alike.
- **`unbounded_get_returns_last_write`**: in an unbounded cache without TTL or TTI, in
  every state a run without invalidations reaches, a `get` returns exactly the value last
  written for its key, and nothing for a key never written or last removed.
-/

namespace Moka

namespace Inner

variable {K V σ : Type}

/-- The map, the invalidator and `valid_after` are as they were. -/
structure Settled (s s' : Inner K V σ) : Prop where
  cache : s'.cache = s.cache
  invalidator : s'.invalidator = s.invalidator
  validAfter : s'.validAfter = s.validAfter

namespace Settled

variable {s₁ s₂ s₃ : Inner K V σ}

theorem refl (s : Inner K V σ) : Settled s s := ⟨rfl, rfl, rfl⟩

theorem trans (h₁ : Settled s₁ s₂) (h₂ : Settled s₂ s₃) : Settled s₁ s₃ :=
  ⟨h₂.cache.trans h₁.cache, h₂.invalidator.trans h₁.invalidator, h₂.validAfter.trans h₁.validAfter⟩

theorem of_view (hv : view s₂ = view s₁) (hs : stamps s₂ = stamps s₁) : Settled s₁ s₂ := by
  simp only [view, Prod.mk.injEq] at hv
  exact ⟨hv.1, hv.2.2.2, validAfter_of_stamps hs⟩

end Settled

theorem settled_moveToBackAo (s : Inner K V σ) (e : ValueEntry V) : Settled s (s.moveToBackAo e) :=
  .of_view (view_moveToBackAo s e) (stamps_moveToBackAo s e)

theorem settled_moveToBackWo (s : Inner K V σ) (e : ValueEntry V) : Settled s (s.moveToBackWo e) :=
  .of_view (view_moveToBackWo s e) (stamps_moveToBackWo s e)

variable (cfg : Config K V σ)

theorem settled_applyRead (s : Inner K V σ) (op : ReadOp V) : Settled s (applyRead cfg s op) := by
  cases op with
  | hit hash entry ts =>
    refine Settled.trans ?_ (settled_moveToBackAo _ entry)
    exact ⟨rfl, rfl, rfl⟩
  | miss hash => exact ⟨rfl, rfl, rfl⟩

theorem settled_applyReads (s : Inner K V σ) (count : Nat) : Settled s (applyReads cfg s count) :=
  List.foldlRecOn (motive := Settled s) _ _ _ ⟨rfl, rfl, rfl⟩ fun t ht op _ =>
    ht.trans (settled_applyRead cfg t op)

theorem settled_handleAdmit [DecidableEq K] (s : Inner K V σ) (kh : KeyHash K) (e : ValueEntry V) (w : Nat) :
    Settled s (handleAdmit cfg s kh e w) := by
  unfold handleAdmit
  split <;> exact ⟨rfl, rfl, rfl⟩

/-- With no capacity, `handle_upsert` finds its entry admitted and moves its nodes, or
admits it: either way it leaves the map, the invalidator and `valid_after`. -/
theorem handleUpsert_settled [DecidableEq K] (hcap : cfg.maxCapacity = none) (s : Inner K V σ)
    (kh : KeyHash K) (e : ValueEntry V) (ts : Nat) : Settled s (handleUpsert cfg s kh e ts) := by
  unfold handleUpsert
  dsimp only
  split
  · refine Settled.trans ?_ (settled_moveToBackWo _ e)
    refine Settled.trans ?_ (settled_moveToBackAo _ e)
    exact ⟨rfl, rfl, rfl⟩
  · rw [if_pos (by simp [hasEnoughCapacity, hcap])]
    refine Settled.trans ?_ (settled_handleAdmit cfg _ kh e _)
    exact ⟨rfl, rfl, rfl⟩

theorem settled_applyWrite [DecidableEq K] (hcap : cfg.maxCapacity = none) (ts : Nat) (s : Inner K V σ)
    (op : WriteOp K V) : Settled s (applyWrite cfg ts s op) := by
  cases op with
  | upsert kh e => exact handleUpsert_settled cfg hcap s kh e ts
  | remove key e => exact .of_view (view_handleRemove cfg s key e) (stamps_handleRemove cfg s key e)

theorem settled_applyWrites [DecidableEq K] (hcap : cfg.maxCapacity = none) (s : Inner K V σ) (count ts : Nat) :
    Settled s (applyWrites cfg s count ts) :=
  List.foldlRecOn (motive := Settled s) _ _ _ ⟨rfl, rfl, rfl⟩ fun t ht op _ =>
    ht.trans (settled_applyWrite cfg hcap ts t op)

theorem settled_syncPass [DecidableEq K] (hcap : cfg.maxCapacity = none) (s : Inner K V σ) (now : Nat) :
    Settled s (syncPass cfg s now).1 := by
  have hr : Settled s (if s.readOpCh.length > 0 then applyReads cfg s s.readOpCh.length else s) := by
    split
    · exact settled_applyReads cfg s _
    · exact .refl s
  unfold syncPass
  dsimp only
  generalize (if s.readOpCh.length > 0 then applyReads cfg s s.readOpCh.length else s) = s₁ at hr
  split
  · exact hr.trans (settled_applyWrites cfg hcap s₁ _ now)
  · exact hr

/-- With no capacity, no TTL and no TTI, a cycle from a state with `valid_after` unset and
no predicate registered runs no sweep and no scan: it leaves the map, the invalidator and
`valid_after`, and submits no task. -/
theorem sync_settled [DecidableEq K] (hcap : cfg.maxCapacity = none) (httl : cfg.timeToLive = none)
    (htti : cfg.timeToIdle = none) {s s' : Inner K V σ} {maxRepeats now : Nat}
    {task : Option (InvalidationTask K)} {pace : Option SyncPace}
    (h : sync cfg s maxRepeats now = .ok (s', task, pace)) (hva : s.validAfter = 0)
    (hempty : ∀ inv, s.invalidator = some inv → inv.isEmpty = true) : Settled s s' ∧ task = none := by
  obtain ⟨s₂, hs₂, hcases⟩ := sync_cases cfg h
  have hp := settled_syncPass cfg hcap s now
  have hno : (cfg.hasExpiry || (syncPass cfg s now).1.hasValidAfter) = false := by
    simp [Config.hasExpiry, httl, htti, hasValidAfter, hp.validAfter, hva]
  rw [hno, if_neg Bool.false_ne_true] at hs₂
  subst hs₂
  rcases hcases with ⟨rfl, rfl⟩ | ⟨inv, hinv, hne, -, -⟩
  · exact ⟨hp, rfl⟩
  · exact absurd (hempty inv (hp.invalidator ▸ hinv)) (by simp [hne])

/-- With no capacity, no TTL and no TTI, a step of a cycle outside a sweep, from a state
with `valid_after` unset and no predicate registered, leaves the map, the invalidator and
`valid_after`, submits no task, and starts no sweep. -/
theorem cycleStep_settled [DecidableEq K] (hcap : cfg.maxCapacity = none) (httl : cfg.timeToLive = none)
    (htti : cfg.timeToIdle = none) {s s' : Inner K V σ} {now : Nat} {pc : CyclePc}
    {next : Option CyclePc} {task : Option (InvalidationTask K)}
    (h : cycleStep cfg s now pc = .ok (s', next, task)) (hva : s.validAfter = 0)
    (hempty : ∀ inv, s.invalidator = some inv → inv.isEmpty = true)
    (hpc : ∀ target left t va, pc ≠ .sweep target left t va) :
    Settled s s' ∧ task = none ∧ ∀ target left t va, next ≠ some (.sweep target left t va) := by
  have hstart : evictStart cfg s now = .invalidate := by
    simp [evictStart, Config.hasExpiry, httl, htti, hasValidAfter, hva]
  cases pc with
  | loop calls shouldSync =>
    simp only [cycleStep] at h
    split at h <;> cases h
    · exact ⟨.refl s, rfl, by simp⟩
    · exact ⟨.refl s, rfl, by simp [hstart]⟩
  | reads calls count =>
    cases count with
    | zero =>
      cases h
      exact ⟨.refl s, rfl, by simp⟩
    | succ n =>
      simp only [cycleStep] at h
      split at h <;> cases h
      · rename_i op rest _
        have h₁ := settled_applyRead cfg { s with readOpCh := rest } op
        exact ⟨⟨h₁.cache, h₁.invalidator, h₁.validAfter⟩, rfl, by simp⟩
      · exact ⟨.refl s, rfl, by simp⟩
  | writes calls count ts =>
    cases count with
    | zero =>
      cases h
      exact ⟨.refl s, rfl, by simp⟩
    | succ n =>
      simp only [cycleStep] at h
      split at h <;> cases h
      · rename_i op rest _
        have h₁ := settled_applyWrite cfg hcap ts { s with writeOpCh := rest } op
        exact ⟨⟨h₁.cache, h₁.invalidator, h₁.validAfter⟩, rfl, by simp⟩
      · exact ⟨.refl s, rfl, by simp⟩
  | sweep target left t va => exact absurd rfl (hpc target left t va)
  | invalidate =>
    simp only [cycleStep] at h
    split at h <;> cases h
    rcases invalidationPhase_cases cfg ‹_› with ⟨rfl, rfl⟩ | ⟨inv, hinv, hne, -, -⟩
    · exact ⟨.refl _, rfl, by simp⟩
    · exact absurd (hempty inv hinv) (by simp [hne])

/-- A remove leaves `valid_after`. -/
theorem remove_validAfter [DecidableEq K] (s : Inner K V σ) (key : K) :
    (s.remove key).validAfter = s.validAfter := by
  unfold remove removeEntry
  cases s.cache.lookup key <;> rfl

/-- An insert leaves `valid_after`. -/
theorem insert_validAfter [DecidableEq K] {s s' : Inner K V σ} {key : K} {value : V}
    (h : s.insert cfg key value = some s') : s'.validAfter = s.validAfter := by
  unfold insert at h
  cases hl : s.cache.lookup key <;> rw [hl] at h <;> cases h <;> rfl

end Inner

/-- An invalidation: `invalidate_all` or `invalidate_entries_if`. -/
def CacheAction.invalidates {K V : Type} : CacheAction K V → Bool
  | .invalidateAll | .invalidateEntriesIf _ => true
  | _ => false

namespace Cache

variable {K V σ : Type} [DecidableEq K] (cfg : Config K V σ)

/-- A state of an unbounded cache reached without invalidations: the map holds the values
of the abstract cache `w`, whose inserts in flight are the cache's, `valid_after` is unset,
no predicate is registered, no task is on the pool, and no sweep is in progress. -/
structure Exact (s : Cache K V σ) (w : Writes K V) : Prop where
  lookup : ∀ k, (s.inner.cache.lookup k).map ValueEntry.value = w.map k
  pending : s.inserts.map (fun c => (c.key, c.value)) = w.pending
  validAfter : s.inner.validAfter = 0
  empty : ∀ inv, s.inner.invalidator = some inv → inv.isEmpty = true
  job : s.job = none
  cycle : ∀ target left t va, s.cycle ≠ some (.sweep target left t va)

theorem exact_init (sketch : σ) : Exact (init cfg sketch) ⟨fun _ => none, []⟩ where
  lookup k := by simp [init, Inner.new]
  pending := rfl
  validAfter := rfl
  empty inv hi := by
    cases hb : cfg.invalidatorEnabled <;> simp [init, Inner.new, hb] at hi
    subst hi
    rfl
  job := rfl
  cycle := by simp [init]

/-- A step that keeps the map, the invalidator and `valid_after`, the inserts in flight and
the job, and starts no sweep, keeps `Exact`. -/
theorem Exact.of_settled {s s' : Cache K V σ} {w : Writes K V} (h : Exact s w)
    (hst : Inner.Settled s.inner s'.inner) (hins : s'.inserts = s.inserts) (hjob : s'.job = s.job)
    (hcyc : ∀ target left t va, s'.cycle ≠ some (.sweep target left t va)) : Exact s' w :=
  ⟨fun k => hst.cache ▸ h.lookup k, hins ▸ h.pending, hst.validAfter.trans h.validAfter,
    fun inv hi => h.empty inv (hst.invalidator ▸ hi), hjob.trans h.job, hcyc⟩

/-- A map that differs from the cache's only at `k`, where it holds `v`, holds the values of
the abstract map with `k` written `v`. -/
theorem Exact.update {s : Cache K V σ} {w : Writes K V} (h : Exact s w) {k : K} {v : Option V}
    {c : AList (fun _ : K => ValueEntry V)} (hk : (c.lookup k).map ValueEntry.value = v)
    (hother : ∀ k', k' ≠ k → c.lookup k' = s.inner.cache.lookup k') :
    ∀ k', (c.lookup k').map ValueEntry.value = Function.update w.map k v k' := by
  intro k'
  by_cases hk' : k' = k
  · subst hk'
    simpa using hk
  · rw [Function.update_noteq hk', hother k' hk', h.lookup]

section Unbounded

variable {cfg} (hcap : cfg.maxCapacity = none) (httl : cfg.timeToLive = none)
  (htti : cfg.timeToIdle = none)

include hcap httl htti

/-- Every step that is not an invalidation keeps the map equal to the abstract map, and
the inserts in flight those of the abstract cache, stepped alike. -/
theorem exact_step {s s' : Cache K V σ} {w : Writes K V} (h : Exact s w) (a : CacheAction K V)
    (ha : a.invalidates = false) (hs : step cfg s a = some s') : Exact s' (lastWrite w a) := by
  cases a with
  | insert k v =>
    obtain ⟨e, inner, hins, hv, hc, -, -⟩ := Inner.insert_spec cfg s.inner k v
    obtain ⟨inner', hins', rfl⟩ := step_insert cfg hs
    cases hins.symm.trans hins'
    refine ⟨h.update (by simp [hc, hv]) fun k' hk' => by rw [hc, AList.lookup_insert_ne hk'], h.pending,
      (Inner.insert_validAfter cfg hins).trans h.validAfter,
      fun inv hi => h.empty inv ((Inner.insert_invalidator cfg hins) ▸ hi), h.job, h.cycle⟩
  | insertStart k v =>
    cases hs
    exact ⟨h.lookup, by simp [lastWrite, h.pending], h.validAfter, h.empty, h.job, h.cycle⟩
  | insertCall i commit =>
    obtain ⟨c, hc, -, rfl⟩ := step_insertCall cfg hs
    obtain ⟨infos, qNodes, nextId, hr⟩ := Inner.callClosure_frame c.key (cfg.hasher c.key) c.value
      s.inner c.locals (closureFor s.inner c.key)
    obtain ⟨hp, hpend⟩ := pending_insertCall h.pending hc
    cases commit with
    | false =>
      refine ⟨fun k => ?_, hpend _ _, ?_, fun inv hi => h.empty inv ?_, h.job, h.cycle⟩
      · simpa [hr] using h.lookup k
      · simpa [hr] using h.validAfter
      · simpa [hr] using hi
    | true =>
      simp only [lastWrite, hp]
      refine ⟨h.update (by simp) fun k' hk' => ?_, hpend _ _, ?_, fun inv hi => h.empty inv ?_, h.job,
        h.cycle⟩
      · simp [AList.lookup_insert_ne hk', hr]
      · simpa [hr] using h.validAfter
      · simpa [hr] using hi
  | insertPick i =>
    obtain ⟨c, op, inner, -, -, hp, rfl⟩ := step_insertPick cfg hs
    obtain ⟨qNodes, rfl⟩ := Inner.pickWriteOp_frame hp
    exact ⟨h.lookup, by simp only [lastWrite, map_eraseIdx, h.pending], h.validAfter, h.empty, h.job, h.cycle⟩
  | remove k =>
    cases hs
    refine ⟨h.update (by simp [Inner.remove_lookup]) fun k' hk' => by simp [Inner.remove_lookup, hk'],
      h.pending, (Inner.remove_validAfter s.inner k).trans h.validAfter,
      fun inv hi => h.empty inv ((Inner.remove_invalidator s.inner k) ▸ hi), h.job, h.cycle⟩
  | removeStart k =>
    obtain ⟨o, inner, hr, rfl⟩ := step_removeStart cfg hs
    have hl := Inner.removeEntry_lookup s.inner k
    rw [hr] at hl
    have hst : Inner.Settled s.inner { inner with cache := s.inner.cache } := by
      rcases Inner.removeEntry_cases hr with ⟨-, rfl⟩ | ⟨e, -, -, rfl⟩ <;> exact ⟨rfl, rfl, rfl⟩
    exact ⟨h.update (by simp [hl]) fun k' hk' => by simp [hl, hk'], h.pending,
      hst.validAfter.trans h.validAfter, fun inv hi => h.empty inv (hst.invalidator ▸ hi), h.job, h.cycle⟩
  | send i =>
    obtain ⟨op, -, rfl⟩ := step_send cfg hs
    exact ⟨h.lookup, h.pending, h.validAfter, h.empty, h.job, h.cycle⟩
  | get k =>
    cases hs
    obtain ⟨ch, hg⟩ := Inner.getWithHash_frame cfg s.inner k (cfg.hasher k) s.now
    refine h.of_settled ?_ rfl rfl h.cycle
    rw [hg]
    exact ⟨rfl, rfl, rfl⟩
  | invalidateAll => cases ha
  | invalidateEntriesIf f => cases ha
  | sync =>
    obtain ⟨inner, task, pace, hcyc, hsync, -, rfl⟩ := step_sync cfg hs
    obtain ⟨hst, rfl⟩ := Inner.sync_settled cfg hcap httl htti hsync h.validAfter h.empty
    exact h.of_settled hst rfl rfl h.cycle
  | syncStep =>
    rcases step_syncStep cfg hs with ⟨-, rfl⟩ | ⟨pc, inner, next, task, hpc, hc, -, rfl⟩
    · exact h.of_settled (.refl _) rfl rfl (by simp)
    · obtain ⟨hst, rfl, hnext⟩ := Inner.cycleStep_settled cfg hcap httl htti hc h.validAfter h.empty
        fun target left t va hsw => h.cycle target left t va (hpc.trans (congrArg some hsw))
      exact h.of_settled hst rfl rfl hnext
  | scanApply =>
    obtain ⟨task, c, rest, hj, -⟩ := step_scanApply cfg hs
    cases h.job.symm.trans hj
  | scanInvalidate =>
    obtain ⟨task, c, rest, o, inner, hj, -⟩ := step_scanInvalidate cfg hs
    cases h.job.symm.trans hj
  | taskExecute =>
    obtain ⟨task, hj, -⟩ := step_taskExecute cfg hs
    cases h.job.symm.trans hj
  | taskStore =>
    obtain ⟨r, inv, hj, -⟩ := step_taskStore cfg hs
    cases h.job.symm.trans hj
  | taskClear =>
    obtain ⟨inv, hj, -⟩ := step_taskClear cfg hs
    cases h.job.symm.trans hj
  | tick d =>
    cases hs
    exact ⟨h.lookup, h.pending, h.validAfter, h.empty, h.job, h.cycle⟩

/-- A run without invalidations keeps the map equal to the abstract map, stepped along the
same actions. -/
theorem exact_run : ∀ (as : List (CacheAction K V)) {s s' : Cache K V σ} {w : Writes K V},
    Exact s w → (∀ a ∈ as, a.invalidates = false) → run cfg s as = some s' → Exact s' (as.foldl lastWrite w)
  | [], _, _, _, h, _, hrun => by cases hrun; exact h
  | a :: as, s, _, w, h, has, hrun => by
    simp only [run, Option.bind_eq_some] at hrun
    obtain ⟨s₁, h₁, hrest⟩ := hrun
    exact exact_run as (exact_step hcap httl htti h a (has a (List.mem_cons_self _ _)) h₁)
      (fun a ha => has a (List.mem_cons_of_mem _ ha)) hrest

/-- **An unbounded cache returns exactly the last writes.** With no maximum capacity, no
TTL and no TTI, in every state a run from a new cache reaches without invalidations, a
`get` of any key, at any time, returns the value last written for it, and nothing if it
was never written or was last removed. -/
theorem unbounded_get_returns_last_write (sketch : σ) (as : List (CacheAction K V))
    (has : ∀ a ∈ as, a.invalidates = false) {s : Cache K V σ} (hrun : run cfg (init cfg sketch) as = some s)
    (key : K) (hash now : Nat) : (s.inner.getWithHash cfg key hash now).1 = lastWrites as key := by
  have h := exact_run hcap httl htti as (exact_init cfg sketch) has hrun
  have hl := h.lookup key
  have hfresh : ∀ timeout ts, timeout = none → isExpiredEntry timeout s.inner.validAfter ts now = false := by
    rintro _ (_ | ts) rfl <;> simp [isExpiredEntry, h.validAfter]
  have hinv : ∀ e, Inner.isInvalidatedEntry cfg s.inner key e = false := by
    intro e
    unfold Inner.isInvalidatedEntry
    split
    · split
      · simp [Invalidator.applyPredicates, h.empty _ ‹_›]
      · rfl
    · rfl
  unfold Inner.getWithHash
  cases he : s.inner.cache.lookup key with
  | none =>
    rw [he] at hl
    exact hl
  | some e =>
    rw [he] at hl
    simp only [isExpiredEntryWo, isExpiredEntryAo, hfresh _ _ httl, hfresh _ _ htti, hinv, Bool.or_false,
      Bool.false_eq_true, if_false]
    exact hl

end Unbounded

/-- A cache with no capacity, no TTL and no TTI, with the invalidator on. -/
def unboundedConfig : Config Nat Nat Unit := ⟨none, some valueWeigher, none, none, true, id, emptySketch⟩

/-- Writes to two keys, a removal and an update around two syncs. -/
def writesAndSyncs : List (CacheAction Nat Nat) :=
  [.insert 0 1, .insert 1 2, .sync, .remove 0, .insert 1 3, .sync, .tick 5]

/-- After `writesAndSyncs`, a `get` of key 1 returns the update's value, and one of key 0
returns nothing: both are the last writes. -/
theorem unbounded_get_returns_last_write_after_syncs :
    let s := (run unboundedConfig (init unboundedConfig ()) writesAndSyncs).getD (init unboundedConfig ())
    run unboundedConfig (init unboundedConfig ()) writesAndSyncs = some s ∧
      (s.inner.getWithHash unboundedConfig 1 1 s.now).1 = lastWrites writesAndSyncs 1 ∧
      (s.inner.getWithHash unboundedConfig 1 1 s.now).1 = some 3 :=
  have hrun := (Option.getD_of_ne_none (Option.isSome_iff_ne_none.1
    (show (run unboundedConfig (init unboundedConfig ()) writesAndSyncs).isSome = true by decide))
    (init unboundedConfig ())).symm
  ⟨hrun, unbounded_get_returns_last_write rfl rfl rfl () writesAndSyncs (by decide) hrun 1 1 _, by decide⟩

end Cache

end Moka
