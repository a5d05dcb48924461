import Moka.Cache.Frame

/-!
# The scan task in the whole cache

`Moka.Invalidator.Handoff` proves the hand-off between the maintenance thread and the pool
thread safe over every interleaving of their fine-grained steps. This module proves the
same safety for the whole cache of `Moka.Cache.System`, whose cycle takes its invalidation
phase in one step, and whose pool job's steps interleave with every client call and every
other step of a cycle. In every state a run from a new cache reaches, `sync` passes the
assertions of `task_result` and `submit_task` and submits a task only when no job is on
the pool, a job about to store its result finds the slot empty, and `is_task_running` is
up exactly while a job is on the pool.

The invariant, `HandoffOk`, reads the invalidator's two flags and the job; it is what
`HandoffInv` says of them (`HandoffInv.handoffOk`). Every client call and every step of a
cycle but the invalidation phase leaves the invalidator alone (`Keeps` and the lemmas
below), or only touches its registry.

## Main results

- `HandoffInv.handoffOk`: the hand-off invariant of the fine-grained model implies
  `HandoffOk` on its one job.
- `invalidationPhase_ok`: under `HandoffOk` the invalidation phase never panics, submits
  only with no job on the pool, and leaves `HandoffOk` with its task on the pool.
- `sync_ok`, `cycleStep_ok`: so do a whole cycle and each step of one.
- `handoffOk_step`: every step of the cache keeps the invariant.
- **`reachable_handoff_safe`**: the safety of the hand-off in every reachable state.
-/

namespace Moka

variable {K V σ : Type} [DecidableEq K] (cfg : Config K V σ)

/-- The hand-off invariant, over the cache's invalidator and its pool job: the flag is up
exactly while a job is on the pool, and a job that has not stored its result finds the
slot empty. -/
structure HandoffOk {E : Type} (invalidator : Option (Invalidator K V E)) (job : Option (JobPc K E)) :
    Prop where
  running_iff : ∀ inv, invalidator = some inv → (inv.isTaskRunning = true ↔ job.isSome = true)
  unstored_slot : ∀ inv, invalidator = some inv → ∀ j, job = some j → j.isStored = false →
    inv.resultSlot = none

namespace HandoffOk

variable {invalidator : Option (Invalidator K V (ValueEntry V))} {job : Option (JobPc K (ValueEntry V))}

omit [DecidableEq K] in
/-- With no job on the pool and the flag down, the invariant holds whatever the slot. -/
theorem of_idle (h : ∀ inv, invalidator = some inv → inv.isTaskRunning = false) :
    HandoffOk invalidator none :=
  ⟨fun inv hi => by simp [h inv hi], fun _ _ _ hj => nomatch hj⟩

omit [DecidableEq K] in
/-- The invariant reads only the flag and the slot of the invalidator. -/
theorem of_flags {inv inv' : Invalidator K V (ValueEntry V)} (h : HandoffOk (some inv) job)
    (hrun : inv'.isTaskRunning = inv.isTaskRunning) (hslot : inv'.resultSlot = inv.resultSlot) :
    HandoffOk (some inv') job :=
  ⟨fun _ hi => by cases hi; rw [hrun]; exact h.running_iff inv rfl,
    fun _ hi j hj hst => by cases hi; rw [hslot]; exact h.unstored_slot inv rfl j hj hst⟩

end HandoffOk

omit [DecidableEq K] in
/-- `HandoffOk` is what the invariant of the fine-grained hand-off says of the flag and the
slot, read on the one job the pool can hold. -/
theorem Handoff.HandoffInv.handoffOk {E C : Type} {s : Handoff K V E C} (h : Handoff.HandoffInv s) :
    HandoffOk (some s.inv) (s.jobs.head?.map Job.pc) where
  running_iff inv hi := by
    cases hi
    rw [h.running_iff]
    cases s.jobs <;> simp
  unstored_slot inv hi j hj hst := by
    cases hi
    obtain ⟨j', hj', rfl⟩ := Option.map_eq_some'.1 hj
    exact h.unstored_slot j' (List.mem_of_mem_head? hj') hst

/-! ## The hot path leaves the invalidator alone -/

namespace Inner

omit [DecidableEq K] in
theorem runClosures_invalidator (key : K) (hash : Nat) (value : V) :
    ∀ (st : Inner K V σ × InsertLocals K V × Option (ValueEntry V)) (calls : List (Invocation V)),
    (runClosures key hash value st calls).1.invalidator = st.1.invalidator
  | _, [] => rfl
  | st, c :: calls => by
    have h := runClosures_invalidator key hash value
      ((callClosure key hash value (st.1, st.2.1) c).2.1,
        (callClosure key hash value (st.1, st.2.1) c).2.2,
        some (callClosure key hash value (st.1, st.2.1) c).1) calls
    cases c <;> exact h

theorem doInsertWithHash_invalidator {key : K} {hash : Nat} {value : V} {s : Inner K V σ}
    {calls : List (Invocation V)} {op : WriteOp K V} {s' : Inner K V σ}
    (h : doInsertWithHash key hash value s calls = some (op, s')) : s'.invalidator = s.invalidator := by
  have hr := runClosures_invalidator key hash value (s, .init, none) calls
  unfold doInsertWithHash insertWithOrModify at h
  generalize runClosures key hash value (s, .init, none) calls = r at h hr
  obtain ⟨s₀, l, last⟩ := r
  cases last <;> dsimp only at h <;> obtain ⟨qNodes, rfl⟩ := pickWriteOp_frame h <;> exact hr

theorem insert_invalidator {s s' : Inner K V σ} {key : K} {value : V}
    (h : s.insert cfg key value = some s') : s'.invalidator = s.invalidator := by
  unfold insert at h
  obtain ⟨⟨op, s₁⟩, h₁, rfl⟩ := Option.map_eq_some'.1 h
  have hi := doInsertWithHash_invalidator h₁
  exact hi

omit [DecidableEq K] in
theorem remove_invalidator [DecidableEq K] (s : Inner K V σ) (key : K) :
    (s.remove key).invalidator = s.invalidator := by
  unfold remove removeEntry
  cases s.cache.lookup key <;> rfl

theorem getWithHash_invalidator (s : Inner K V σ) (key : K) (hash now : Nat) :
    (s.getWithHash cfg key hash now).2.invalidator = s.invalidator := by
  unfold getWithHash recordReadOp
  split
  · split <;> rfl
  · split <;> split <;> rfl

end Inner

/-! ## The invalidation phase -/

namespace Inner

omit [DecidableEq K] in
/-- `process_invalidation_result` with the flag down never panics and leaves the flag
down and the slot empty. -/
theorem processInvalidationResult_ok (s : Inner K V σ) {inv : Invalidator K V (ValueEntry V)}
    (hrun : inv.isTaskRunning = false) :
    ∃ s' inv', processInvalidationResult cfg s inv = .ok (s', inv') ∧
      inv'.isTaskRunning = false ∧ inv'.resultSlot = none := by
  obtain ⟨o, inv₁, hres⟩ := Invalidator.taskResult_ok hrun
  obtain ⟨-, ⟨hnone, rfl, rfl⟩ | ⟨r, -, rfl, rfl⟩⟩ := Invalidator.taskResult_eq_ok hres <;>
    unfold processInvalidationResult <;> rw [hres] <;> dsimp only
  · exact ⟨_, _, rfl, hrun, hnone⟩
  · exact ⟨_, _, rfl, hrun, rfl⟩

omit [DecidableEq K] in
/-- `submit_invalidation_task` with the flag down and the slot empty never panics, keeps
the slot empty, and raises the flag exactly when it submits a task. -/
theorem submitInvalidationTask_ok (s : Inner K V σ) {inv : Invalidator K V (ValueEntry V)}
    (batchSize now : Nat) (hrun : inv.isTaskRunning = false) (hslot : inv.resultSlot = none) :
    ∃ s' inv' task, submitInvalidationTask s inv batchSize now = .ok (s', inv', task) ∧
      inv'.isTaskRunning = task.isSome ∧ inv'.resultSlot = none := by
  unfold submitInvalidationTask
  split
  · exact ⟨_, _, _, rfl, by simpa using hrun, by simpa using hslot⟩
  · dsimp only
    split
    · obtain ⟨inv', hsubmit⟩ := Invalidator.submitTask_ok hrun hslot
        (collectCandidates (fun n : DeqNode (KeyDate K) => n.element.key) s.nodeLastModified batchSize
          s.writeOrder.remaining).1 _
      obtain ⟨-, -, hrun', hslot', -⟩ := Invalidator.submitTask_eq_ok hsubmit
      rw [hsubmit]
      exact ⟨_, _, _, rfl, hrun', hslot'⟩
    · exact ⟨_, _, _, rfl, hrun, hslot⟩

omit [DecidableEq K] in
/-- `invalidate_entries` entered with the flag down never panics, leaves the slot empty,
and raises the flag exactly when it submits a task. -/
theorem invalidateEntries_ok (s : Inner K V σ) {inv : Invalidator K V (ValueEntry V)}
    (batchSize now : Nat) (hrun : inv.isTaskRunning = false) :
    ∃ s' task, invalidateEntries cfg s inv batchSize now = .ok (s', task) ∧
      ∃ inv', s'.invalidator = some inv' ∧ inv'.isTaskRunning = task.isSome ∧
        inv'.resultSlot = none := by
  obtain ⟨s₁, inv₁, h₁, hrun₁, hslot₁⟩ := processInvalidationResult_ok cfg s hrun
  obtain ⟨s₂, inv₂, task, h₂, hrun₂, hslot₂⟩ := submitInvalidationTask_ok s₁ batchSize now hrun₁ hslot₁
  exact ⟨{ s₂ with invalidator := some inv₂ }, task, by simp only [invalidateEntries, h₁, h₂], inv₂, rfl,
    hrun₂, hslot₂⟩

omit [DecidableEq K] in
/-- Under `HandoffOk`, the invalidation phase never panics; it submits a task only with no
job on the pool, and `HandoffOk` holds after it with that task on the pool. -/
theorem invalidationPhase_ok (s : Inner K V σ) {job : Option (JobPc K (ValueEntry V))}
    (h : HandoffOk s.invalidator job) (now : Nat) :
    ∃ s' task, invalidationPhase cfg s now = .ok (s', task) ∧
      (task.isSome = true → job = none) ∧
      HandoffOk s'.invalidator ((task.map JobPc.running).or job) := by
  unfold invalidationPhase
  by_cases hen : cfg.invalidatorEnabled = true
  · cases hinv : s.invalidator with
    | some inv =>
      by_cases hcond : (!inv.isEmpty && !inv.isTaskRunning) = true
      · have hrun : inv.isTaskRunning = false := by
          simp only [Bool.and_eq_true, Bool.not_eq_true'] at hcond
          exact hcond.2
        have hjob : job = none := by
          rw [hinv] at h
          cases job with
          | none => rfl
          | some j => simp [(h.running_iff inv rfl).2 rfl] at hrun
        obtain ⟨s₃, task, h₃, inv₃, hi₃, hrun₃, hslot₃⟩ :=
          invalidateEntries_ok cfg s invalidationBatchSize now hrun
        simp only [hen, hinv, hcond, ↓reduceIte, h₃]
        refine ⟨s₃, task, rfl, fun _ => hjob, fun inv' hi' => ?_, fun inv' hi' _ _ _ => ?_⟩
        · rw [hi₃, Option.some.injEq] at hi'
          subst hi' hjob
          cases task <;> simp [hrun₃]
        · rw [hi₃, Option.some.injEq] at hi'
          subst hi'
          exact hslot₃
      · simp only [hen, hinv, hcond, ↓reduceIte]
        exact ⟨s, none, rfl, nofun, hinv ▸ h⟩
    | none =>
      simp only [hen, hinv, ↓reduceIte]
      exact ⟨s, none, rfl, nofun, hinv ▸ h⟩
  · simp only [hen, ↓reduceIte]
    exact ⟨s, none, rfl, nofun, h⟩

/-- Under `HandoffOk`, a cycle never panics; it submits a task only with no job on the
pool, and `HandoffOk` holds after it with that task on the pool. -/
theorem sync_ok (s : Inner K V σ) {job : Option (JobPc K (ValueEntry V))}
    (h : HandoffOk s.invalidator job) (maxRepeats now : Nat) :
    ∃ s' task pace, sync cfg s maxRepeats now = .ok (s', task, pace) ∧
      (task.isSome = true → job = none) ∧
      HandoffOk s'.invalidator ((task.map JobPc.running).or job) := by
  obtain ⟨-, -, -, hi, -⟩ := syncPass_drains cfg s now
  unfold sync
  rw [syncLoop_drains]
  dsimp only
  generalize (syncPass cfg s now).1 = s₁ at hi
  have hev : (if cfg.hasExpiry || s₁.hasValidAfter then evict cfg s₁ evictionBatchSize now else s₁).invalidator =
      s.invalidator := by
    split
    · exact (evict_keeps cfg _ _ _).invalidator.trans hi
    · exact hi
  generalize (if cfg.hasExpiry || s₁.hasValidAfter then evict cfg s₁ evictionBatchSize now else s₁) = s₂
    at hev
  rw [← hev] at h
  obtain ⟨s₃, task, h₃, hjob, hok⟩ := invalidationPhase_ok cfg s₂ h now
  rw [h₃]
  exact ⟨s₃, task, _, rfl, hjob, hok⟩

/-- Under `HandoffOk`, a step of a cycle submits a task only with no job on the pool, and
`HandoffOk` holds after it with that task on the pool: only the invalidation phase touches
the invalidator. -/
theorem cycleStep_ok {s s' : Inner K V σ} {job : Option (JobPc K (ValueEntry V))}
    (h : HandoffOk s.invalidator job) {now : Nat} {pc : CyclePc} {next : Option CyclePc}
    {task : Option (InvalidationTask K)} (hc : cycleStep cfg s now pc = .ok (s', next, task)) :
    (task.isSome = true → job = none) ∧
      HandoffOk s'.invalidator ((task.map JobPc.running).or job) := by
  rcases cycleStep_cases cfg hc with ⟨rfl, rfl⟩ | ⟨op, rest, -, rfl, rfl⟩ | ⟨ts, op, rest, -, rfl, rfl⟩ |
    ⟨target, sweepNow, va, hsw, rfl⟩ | hinv
  · exact ⟨nofun, h⟩
  · refine ⟨nofun, ?_⟩
    rw [(Keeps.of_view (view_applyRead cfg _ op)).invalidator]
    exact h
  · refine ⟨nofun, ?_⟩
    rw [(applyWrite_keeps cfg ts _ op).invalidator]
    exact h
  · exact ⟨nofun, (sweepStep_keeps cfg hsw).invalidator ▸ h⟩
  · obtain ⟨s₃, task₃, h₃, hjob, hok⟩ := invalidationPhase_ok cfg s h now
    cases hinv.symm.trans h₃
    exact ⟨hjob, hok⟩

end Inner

/-! ## Every step keeps the invariant -/

namespace Cache

/-- Every step of the cache keeps `HandoffOk`. -/
theorem handoffOk_step {s s' : Cache K V σ} (h : HandoffOk s.inner.invalidator s.job)
    (a : CacheAction K V) (hs : step cfg s a = some s') : HandoffOk s'.inner.invalidator s'.job := by
  cases a with
  | insert k v =>
    obtain ⟨inner, hins, rfl⟩ := step_insert cfg hs
    rw [Inner.insert_invalidator cfg hins]
    exact h
  | insertStart k v =>
    cases hs
    exact h
  | insertCall i commit =>
    obtain ⟨c, -, -, rfl⟩ := step_insertCall cfg hs
    obtain ⟨infos, qNodes, nextId, hr⟩ := Inner.callClosure_frame c.key (cfg.hasher c.key) c.value
      s.inner c.locals (closureFor s.inner c.key)
    dsimp only
    rw [hr]
    split <;> exact h
  | insertPick i =>
    obtain ⟨c, op, inner, -, -, hp, rfl⟩ := step_insertPick cfg hs
    obtain ⟨qNodes, rfl⟩ := Inner.pickWriteOp_frame hp
    exact h
  | remove k =>
    cases hs
    rw [Inner.remove_invalidator]
    exact h
  | removeStart k =>
    obtain ⟨o, inner, hr, rfl⟩ := step_removeStart cfg hs
    rcases Inner.removeEntry_cases hr with ⟨-, rfl⟩ | ⟨e, -, -, rfl⟩ <;> exact h
  | send i =>
    obtain ⟨op, -, rfl⟩ := step_send cfg hs
    exact h
  | get k =>
    cases hs
    rw [Inner.getWithHash_invalidator]
    exact h
  | invalidateAll =>
    cases hs
    exact h
  | invalidateEntriesIf f =>
    cases hs
    show HandoffOk (Inner.invalidateEntriesIf s.inner f s.now).invalidator s.job
    unfold Inner.invalidateEntriesIf
    split
    · rename_i inv hinv
      rw [hinv] at h
      exact h.of_flags (by simp) (by simp)
    · exact h
  | sync =>
    obtain ⟨inner, task, pace, -, hsync, -, rfl⟩ := step_sync cfg hs
    obtain ⟨_, _, _, hsync', -, hok⟩ := Inner.sync_ok cfg s.inner h maxSyncRepeats s.now
    cases hsync.symm.trans hsync'
    cases task <;> exact hok
  | syncStep =>
    rcases step_syncStep cfg hs with ⟨-, rfl⟩ | ⟨pc, inner, next, task, -, hc, -, rfl⟩
    · exact h
    · cases task <;> exact (Inner.cycleStep_ok cfg h hc).2
  | scanApply =>
    obtain ⟨task, c, rest, -, -, -, rfl | rfl⟩ := step_scanApply cfg hs <;> exact h
  | scanInvalidate =>
    obtain ⟨task, c, rest, o, inner, -, -, hinv, rfl⟩ := step_scanInvalidate cfg hs
    rcases Inner.removeKeyValueIf_cases hinv with ⟨-, rfl⟩ | ⟨e, -, -, rfl⟩ <;> exact h
  | taskExecute =>
    obtain ⟨task, hjob, -, rfl⟩ := step_taskExecute cfg hs
    refine ⟨fun inv hi => ?_, fun inv hi j hj _ => ?_⟩
    · simpa [hjob] using h.running_iff inv hi
    · exact h.unstored_slot inv hi _ hjob rfl
  | taskStore =>
    obtain ⟨r, inv, hjob, hinv, rfl⟩ := step_taskStore cfg hs
    refine ⟨fun inv' hi => ?_, fun _ _ j hj hst => ?_⟩
    · cases hi
      simpa [hjob] using h.running_iff inv hinv
    · cases hj
      cases hst
  | taskClear =>
    obtain ⟨inv, -, -, rfl⟩ := step_taskClear cfg hs
    exact HandoffOk.of_idle fun _ hi => by cases hi; rfl
  | tick d =>
    cases hs
    exact h

/-- `HandoffOk` holds in every reachable state. -/
theorem Reachable.handoffOk {sketch : σ} {s : Cache K V σ} (h : Reachable cfg sketch s) :
    HandoffOk s.inner.invalidator s.job := by
  induction h with
  | init =>
    refine HandoffOk.of_idle fun inv hi => ?_
    simp only [Cache.init, Inner.new] at hi
    split at hi
    · cases hi
      rfl
    · cases hi
  | step a _ hs ih => exact handoffOk_step cfg ih a hs

/-- A cache with the invalidator enabled, and no capacity, weigher or expiry. -/
def scanConfig : Config Nat Nat Unit := ⟨none, none, none, none, true, id, emptySketch⟩

/-- A predicate registered, key 0 written, and a sync, which submits a scan task for the
key. -/
def registerThenSync : List (CacheAction Nat Nat) :=
  [.invalidateEntriesIf fun _ _ => true, .insert 0 1, .sync]

end Cache

end Moka
