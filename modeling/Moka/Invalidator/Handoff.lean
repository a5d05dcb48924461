import Moka.Invalidator.Task

/-!
# The hand-off between the maintenance cycle and the scan task

The maintenance cycle and the pool thread that runs a scan task share three things: the
`is_task_running` flag, the result slot, and the scan context's predicates. The cycle
starts the invalidation phase only when it sees the flag down (base_cache.rs:672–683),
takes the result (`task_result`, invalidator.rs:199–232) and submits the next batch
(`submit_task`, invalidator.rs:159–197); the pool thread runs the task, stores the result
and then lowers the flag (`execute`, invalidator.rs:367–385). Predicate registrations and
removals run on client threads at any time.

The model is a state machine over every interleaving of these steps. The maintenance
thread has a program counter inside `invalidate_entries`; other maintenance cycles cannot
interleave with it, as they wait on the deques mutex. Each pool job has its own program
counter. The state also carries ghost bookkeeping: a serial number per submitted task,
the serial of the result in the slot, and the log of serials `task_result` has taken.

## Main results

- `HandoffReachable.inv`: the invariant `HandoffInv` holds in every reachable state.
- `handoff_safe`: in every reachable state no step panics (the assertions of
  `submit_task` and `task_result` hold), at most one task is in flight, a job about to
  store its result finds the slot empty, and the results are taken exactly once each, in
  submission order, with every earlier result taken before the next submission.
-/

namespace Moka

variable {K V E C : Type}

namespace Invalidator

/-- Modelled from the spec: `Invalidator::remove_predicates_registered_before`, called by
`submit_invalidation_task` (base_cache.rs:1153), is not in the source. The spec (§4.6):
"prune predicates registered strictly before `now` from the main registry"; as
`remove_predicate` does, `is_empty` is raised when the registry becomes empty. -/
def removePredicatesRegisteredBefore (inv : Invalidator K V E) (ts : Nat) :
    Invalidator K V E :=
  let preds := (inv.predicates.entries.filter fun p => decide (p.2.registeredAt < ts)).foldl
    (fun m p => m.erase p.1) inv.predicates
  { inv with predicates := preds, isEmpty := if preds.entries.isEmpty then true else inv.isEmpty }

@[simp] theorem removePredicatesRegisteredBefore_resultSlot (inv : Invalidator K V E)
    (ts : Nat) : (inv.removePredicatesRegisteredBefore ts).resultSlot = inv.resultSlot := rfl

@[simp] theorem removePredicatesRegisteredBefore_isTaskRunning (inv : Invalidator K V E)
    (ts : Nat) :
    (inv.removePredicatesRegisteredBefore ts).isTaskRunning = inv.isTaskRunning := rfl

@[simp] theorem removePredicate_resultSlot (inv : Invalidator K V E) (id : Nat) :
    (inv.removePredicate id).resultSlot = inv.resultSlot := rfl

@[simp] theorem removePredicate_isTaskRunning (inv : Invalidator K V E) (id : Nat) :
    (inv.removePredicate id).isTaskRunning = inv.isTaskRunning := rfl

/-- Registration touches only the registry and the id counter. -/
theorem registerPredicateLoop_handoff (pred : PredicateImpl K V) :
    ∀ (tries : Nat) (inv : Invalidator K V E),
      (registerPredicateLoop pred tries inv).2.resultSlot = inv.resultSlot ∧
        (registerPredicateLoop pred tries inv).2.isTaskRunning = inv.isTaskRunning
  | 0, _ => ⟨rfl, rfl⟩
  | tries + 1, inv => by
    simp only [registerPredicateLoop]
    split
    · exact registerPredicateLoop_handoff pred tries _
    · exact ⟨rfl, rfl⟩

@[simp] theorem registerPredicate_resultSlot (inv : Invalidator K V E) (f : K → V → Bool)
    (t : Nat) : (inv.registerPredicate f t).2.resultSlot = inv.resultSlot :=
  (registerPredicateLoop_handoff _ _ inv).1

@[simp] theorem registerPredicate_isTaskRunning (inv : Invalidator K V E) (f : K → V → Bool)
    (t : Nat) : (inv.registerPredicate f t).2.isTaskRunning = inv.isTaskRunning :=
  (registerPredicateLoop_handoff _ _ inv).2

/-- Everything `submit_task` can do: fail one of its assertions, or raise the flag with
the slot empty. -/
theorem submitTask_eq_ok {inv inv' : Invalidator K V E} {cands : List (KeyDateLite K)}
    {tr : Bool} {task : InvalidationTask K} (h : inv.submitTask cands tr = .ok (inv', task)) :
    inv.isTaskRunning = false ∧ inv.resultSlot = none ∧ inv'.isTaskRunning = true ∧
      inv'.resultSlot = none ∧ task = ⟨cands, tr⟩ := by
  unfold submitTask at h
  split_ifs at h with hrun hslot <;> simp only [Except.ok.injEq, Prod.mk.injEq] at h <;>
    obtain ⟨rfl, rfl⟩ := h <;>
    exact ⟨by simpa using hrun, by simpa using hslot, rfl, by simpa using hslot, rfl⟩

theorem submitTask_ok {inv : Invalidator K V E} (hrun : inv.isTaskRunning = false)
    (hslot : inv.resultSlot = none) (cands : List (KeyDateLite K)) (tr : Bool) :
    ∃ inv', inv.submitTask cands tr = .ok (inv', ⟨cands, tr⟩) := by
  simp [submitTask, hrun, hslot]

theorem taskResult_ok {inv : Invalidator K V E} (hrun : inv.isTaskRunning = false) :
    ∃ o inv', inv.taskResult = .ok (o, inv') := by
  unfold taskResult
  simp only [hrun, Bool.false_eq_true, if_false]
  split <;> exact ⟨_, _, rfl⟩

end Invalidator

/-! ## The state machine -/

/-- Where the maintenance thread is in the invalidation phase of `Inner::sync`. -/
inductive SyncPc
  /-- Outside the invalidation phase. -/
  | idle
  /-- Saw `!is_empty() && !is_task_running()` (base_cache.rs:674), about to call
  `process_invalidation_result`. -/
  | checked
  /-- `task_result` returned; about to run `submit_invalidation_task`. -/
  | resultProcessed
  deriving DecidableEq, Repr

/-- Where a pool job is in `InvalidationTask::execute` (invalidator.rs:367–385). -/
inductive JobPc (K E : Type)
  /-- Submitted, `do_execute` not run yet. -/
  | running (task : InvalidationTask K)
  /-- `do_execute` returned this result; not stored yet. -/
  | executed (result : InternalInvalidationResult K E)
  /-- The result is in the slot; `is_running` not lowered yet. -/
  | stored

/-- Whether the job has stored its result. -/
def JobPc.isStored {K E : Type} : JobPc K E → Bool
  | .stored => true
  | _ => false

/-- A job on the pool, with the serial number of its submission (ghost). -/
structure Job (K E : Type) where
  serial : Nat
  pc : JobPc K E

/-- The shared state, with the ghost bookkeeping: how many tasks were submitted, the
serial of the result in the slot, and the serials `task_result` took, in order. -/
structure Handoff (K V E C : Type) where
  inv : Invalidator K V E
  cache : C
  sync : SyncPc
  jobs : List (Job K E)
  submitted : Nat
  slotSerial : Option Nat
  taken : List Nat

/-- The steps of the three kinds of thread. -/
inductive HandoffAction (K V : Type)
  /-- The maintenance cycle reads `is_empty` and `is_task_running`. -/
  | syncCheck
  /-- `process_invalidation_result` calls `task_result`. -/
  | syncTakeResult
  /-- `submit_invalidation_task` collected a nonempty batch and calls `submit_task`. -/
  | syncSubmit (candidates : List (KeyDateLite K)) (isTruncated : Bool)
  /-- `submit_invalidation_task` found the write-order queue empty and prunes the
  registry at `now`. -/
  | syncPrune (now : Nat)
  /-- `submit_invalidation_task` found no timestamped node and submits nothing. -/
  | syncSkip
  /-- A client registers a predicate. -/
  | register (f : K → V → Bool) (registeredAt : Nat)
  /-- A client removes a predicate. -/
  | remove (id : Nat)
  /-- The `i`-th pool job runs `do_execute`. -/
  | jobExecute (i : Nat)
  /-- The `i`-th pool job stores its result in the slot. -/
  | jobStore (i : Nat)
  /-- The `i`-th pool job lowers `is_running` and ends. -/
  | jobClear (i : Nat)

/-- The outcome of a step: not enabled, a panic, or the next state. -/
inductive Outcome (S : Type)
  | blocked
  | panic (p : HandoffPanic)
  | next (s : S)

namespace Handoff

variable (cache : GetOrRemoveEntry C K V E)

/-- The initial state: a fresh invalidator, nothing submitted. -/
def init (c : C) : Handoff K V E C :=
  ⟨Invalidator.new, c, .idle, [], 0, none, []⟩

/-- One step of one thread. -/
def step (s : Handoff K V E C) : HandoffAction K V → Outcome (Handoff K V E C)
  | .syncCheck =>
    if s.sync = .idle then
      if !s.inv.isEmpty && !s.inv.isTaskRunning then .next { s with sync := .checked }
      else .next s
    else .blocked
  | .syncTakeResult =>
    if s.sync = .checked then
      match s.inv.taskResult with
      | .error p => .panic p
      | .ok (none, inv) => .next { s with inv := inv, sync := .resultProcessed }
      | .ok (some _, inv) =>
        .next { s with inv := inv, sync := .resultProcessed, slotSerial := none,
                       taken := s.taken ++ [s.slotSerial.getD 0] }
    else .blocked
  | .syncSubmit cands tr =>
    if s.sync = .resultProcessed ∧ 0 < cands.length then
      match s.inv.submitTask cands tr with
      | .error p => .panic p
      | .ok (inv, task) =>
        .next { s with inv := inv, sync := .idle, jobs := s.jobs ++ [⟨s.submitted, .running task⟩],
                       submitted := s.submitted + 1 }
    else .blocked
  | .syncPrune now =>
    if s.sync = .resultProcessed then
      .next { s with inv := s.inv.removePredicatesRegisteredBefore now, sync := .idle }
    else .blocked
  | .syncSkip => if s.sync = .resultProcessed then .next { s with sync := .idle } else .blocked
  | .register f t => .next { s with inv := (s.inv.registerPredicate f t).2 }
  | .remove id => .next { s with inv := s.inv.removePredicate id }
  | .jobExecute i =>
    match s.jobs[i]? with
    | some ⟨n, .running task⟩ =>
      let r := InvalidationTask.execute cache task s.inv.scanContext (some s.cache)
      .next { s with cache := r.2.getD s.cache, jobs := s.jobs.set i ⟨n, .executed r.1⟩ }
    | _ => .blocked
  | .jobStore i =>
    match s.jobs[i]? with
    | some ⟨n, .executed r⟩ =>
      .next { s with inv := { s.inv with resultSlot := some r }, slotSerial := some n,
                     jobs := s.jobs.set i ⟨n, .stored⟩ }
    | _ => .blocked
  | .jobClear i =>
    match s.jobs[i]? with
    | some ⟨_, .stored⟩ =>
      .next { s with inv := { s.inv with isTaskRunning := false }, jobs := s.jobs.eraseIdx i }
    | _ => .blocked

/-- The states reached from `init` by any interleaving of steps. -/
inductive HandoffReachable : Handoff K V E C → Prop
  | init (c : C) : HandoffReachable (init c)
  | step {s s' : Handoff K V E C} (a : HandoffAction K V) :
      HandoffReachable s → step cache s a = .next s' → HandoffReachable s'

/-- The state a list of steps leads to, when each is enabled and none panics. -/
def run (s : Handoff K V E C) : List (HandoffAction K V) → Option (Handoff K V E C)
  | [] => some s
  | a :: as =>
    match step cache s a with
    | .next s' => run s' as
    | _ => none

theorem HandoffReachable.of_run :
    ∀ {s s' : Handoff K V E C} (as : List (HandoffAction K V)),
    HandoffReachable cache s → run cache s as = some s' → HandoffReachable cache s'
  | _, _, [], h, hrun => by cases hrun; exact h
  | s, _, a :: as, h, hrun => by
    simp only [run] at hrun
    split at hrun
    · exact HandoffReachable.of_run as (.step a h ‹_›) hrun
    · cases hrun

/-! ## The invariant -/

/-- The invariant of the hand-off. -/
structure HandoffInv (s : Handoff K V E C) : Prop where
  /-- At most one job is on the pool. -/
  jobs_le_one : s.jobs.length ≤ 1
  /-- The flag is up exactly while a job is on the pool. -/
  running_iff : s.inv.isTaskRunning = true ↔ s.jobs ≠ []
  /-- Inside the invalidation phase no job is on the pool. -/
  sync_jobs : s.sync ≠ .idle → s.jobs = []
  /-- Once `task_result` has run, the slot is empty. -/
  processed_slot : s.sync = .resultProcessed → s.inv.resultSlot = none
  /-- A job that has not stored its result yet finds the slot empty. -/
  unstored_slot : ∀ j ∈ s.jobs, j.pc.isStored = false → s.inv.resultSlot = none
  /-- A job that has stored its result has left it in the slot. -/
  stored_slot : ∀ j ∈ s.jobs, j.pc.isStored = true → s.inv.resultSlot.isSome
  /-- The ghost serial tags the slot's result, and it is the next to be taken. -/
  slotSerial_eq : s.slotSerial = s.inv.resultSlot.map fun _ => s.taken.length
  /-- The job on the pool carries the next serial to be taken. -/
  job_serial : ∀ j ∈ s.jobs, j.serial = s.taken.length
  /-- Results are taken once each, in submission order. -/
  taken_eq : s.taken = List.range s.taken.length
  /-- Every submission was taken, or is on the pool or in the slot. -/
  submitted_eq :
    s.submitted = s.taken.length + if s.jobs.isEmpty && s.inv.resultSlot.isNone then 0 else 1

theorem handoffInv_init (c : C) : HandoffInv (init c : Handoff K V E C) where
  jobs_le_one := Nat.zero_le _
  running_iff := by simp [init, Invalidator.new]
  sync_jobs _ := rfl
  processed_slot h := by cases h
  unstored_slot _ h := by cases h
  stored_slot _ h := by cases h
  slotSerial_eq := rfl
  job_serial _ h := by cases h
  taken_eq := rfl
  submitted_eq := by simp [init, Invalidator.new]

/-- With at most one job, a job found at index `i` is the only one. -/
theorem eq_singleton_of_getElem? {jobs : List (Job K E)} (hle : jobs.length ≤ 1) {i : Nat}
    {j : Job K E} (h : jobs[i]? = some j) : i = 0 ∧ jobs = [j] := by
  match jobs, i, h with
  | [j'], 0, h => exact ⟨rfl, by simpa using h⟩
  | _ :: _ :: _, _, _ => simp at hle

/-- The invariant is kept by a step that touches neither the flag, the slot, the jobs nor
the ghost bookkeeping, as long as the maintenance thread's new position is consistent. -/
theorem HandoffInv.of_frame {s s' : Handoff K V E C} (h : HandoffInv s)
    (hrun : s'.inv.isTaskRunning = s.inv.isTaskRunning)
    (hslot : s'.inv.resultSlot = s.inv.resultSlot) (hjobs : s'.jobs = s.jobs)
    (hsync : s'.sync ≠ .idle → s'.jobs = [])
    (hprocessed : s'.sync = .resultProcessed → s'.inv.resultSlot = none)
    (hsub : s'.submitted = s.submitted) (hser : s'.slotSerial = s.slotSerial)
    (htaken : s'.taken = s.taken) : HandoffInv s' where
  jobs_le_one := hjobs ▸ h.jobs_le_one
  running_iff := hrun ▸ hjobs ▸ h.running_iff
  sync_jobs := hsync
  processed_slot := hprocessed
  unstored_slot j hj := hslot ▸ h.unstored_slot j (hjobs ▸ hj)
  stored_slot j hj := hslot ▸ h.stored_slot j (hjobs ▸ hj)
  slotSerial_eq := by rw [hser, hslot, htaken]; exact h.slotSerial_eq
  job_serial j hj := htaken ▸ h.job_serial j (hjobs ▸ hj)
  taken_eq := htaken ▸ h.taken_eq
  submitted_eq := by rw [hsub, htaken, hjobs, hslot]; exact h.submitted_eq

/-- The invariant is kept by a step that leaves the maintenance thread idle and changes
nothing of the hand-off itself. -/
theorem HandoffInv.to_idle {s s' : Handoff K V E C} (h : HandoffInv s)
    (hrun : s'.inv.isTaskRunning = s.inv.isTaskRunning)
    (hslot : s'.inv.resultSlot = s.inv.resultSlot) (hjobs : s'.jobs = s.jobs)
    (hidle : s'.sync = .idle) (hsub : s'.submitted = s.submitted)
    (hser : s'.slotSerial = s.slotSerial) (htaken : s'.taken = s.taken) : HandoffInv s' :=
  h.of_frame hrun hslot hjobs (fun hne => absurd hidle hne) (fun hp => by rw [hidle] at hp; cases hp)
    hsub hser htaken

theorem HandoffInv.jobs_of_not_running {s : Handoff K V E C} (h : HandoffInv s)
    (hrun : s.inv.isTaskRunning = false) : s.jobs = [] := by
  by_contra hne
  exact absurd (h.running_iff.2 hne) (by simp [hrun])

theorem HandoffInv.idle_of_job {s : Handoff K V E C} (h : HandoffInv s) {j : Job K E}
    (hj : j ∈ s.jobs) : s.sync = .idle := by
  by_contra hne
  rw [h.sync_jobs hne] at hj
  cases hj

/-! ## Steps -/

theorem HandoffInv.syncCheck {s s' : Handoff K V E C} (h : HandoffInv s)
    (hs : step cache s .syncCheck = .next s') : HandoffInv s' := by
  simp only [step] at hs
  split_ifs at hs with hidle hcond <;> cases hs
  · simp only [Bool.and_eq_true, Bool.not_eq_true'] at hcond
    exact h.of_frame rfl rfl rfl (fun _ => h.jobs_of_not_running hcond.2) (fun hp => by cases hp)
      rfl rfl rfl
  · exact h

theorem HandoffInv.syncTakeResult {s s' : Handoff K V E C} (h : HandoffInv s)
    (hs : step cache s .syncTakeResult = .next s') : HandoffInv s' := by
  simp only [step] at hs
  split_ifs at hs with hchecked
  have hjobs := h.sync_jobs (by rw [hchecked]; nofun)
  split at hs
  · cases hs
  · rename_i inv' hres
    cases hs
    obtain ⟨-, ⟨hnone, -, rfl⟩ | ⟨r, hr, ho, -⟩⟩ := Invalidator.taskResult_eq_ok hres
    · exact h.of_frame rfl rfl rfl (fun _ => hjobs) (fun _ => hnone) rfl rfl rfl
    · cases ho
  · rename_i res inv' hres
    cases hs
    obtain ⟨hrun, ⟨-, hnone, -⟩ | ⟨r, hr, -, rfl⟩⟩ := Invalidator.taskResult_eq_ok hres
    · cases hnone
    have hser : s.slotSerial = some s.taken.length := by rw [h.slotSerial_eq, hr]; rfl
    have hsub := h.submitted_eq
    simp only [hjobs, hr, List.isEmpty_nil, Option.isNone_some, Bool.and_false] at hsub
    refine ⟨by simp [hjobs], by simp [hrun, hjobs], fun _ => hjobs, fun _ => rfl,
      by simp [hjobs], by simp [hjobs], rfl, by simp [hjobs], ?_, ?_⟩
    · rw [hser, Option.getD_some, List.length_append, List.length_singleton, List.range_succ,
        ← h.taken_eq]
    · simp [hjobs, hsub]

theorem HandoffInv.syncSubmit {s s' : Handoff K V E C} (h : HandoffInv s)
    {cands : List (KeyDateLite K)} {tr : Bool}
    (hs : step cache s (.syncSubmit cands tr) = .next s') : HandoffInv s' := by
  simp only [step] at hs
  split_ifs at hs with hen
  have hjobs := h.sync_jobs (by rw [hen.1]; nofun)
  have hslot := h.processed_slot hen.1
  split at hs
  · cases hs
  · rename_i inv' task hsubmit
    cases hs
    obtain ⟨-, -, hrun', hslot', -⟩ := Invalidator.submitTask_eq_ok hsubmit
    have hsub := h.submitted_eq
    simp only [hjobs, hslot, List.isEmpty_nil, Option.isNone_none, Bool.and_self, if_true,
      Nat.add_zero] at hsub
    refine ⟨by simp [hjobs], by simp [hrun'], fun hne => absurd rfl hne, (fun hp => by cases hp),
      fun _ _ _ => hslot', fun j hj hst => ?_, ?_, fun j hj => ?_, h.taken_eq, ?_⟩
    · simp only [hjobs, List.nil_append, List.mem_singleton] at hj
      subst hj
      cases hst
    · rw [hslot', h.slotSerial_eq, hslot]
    · simp only [hjobs, List.nil_append, List.mem_singleton] at hj
      subst hj
      exact hsub
    · simp [hjobs, hsub]

theorem HandoffInv.jobExecute {s s' : Handoff K V E C} (h : HandoffInv s) {i : Nat}
    (hs : step cache s (.jobExecute i) = .next s') : HandoffInv s' := by
  simp only [step] at hs
  split at hs
  · rename_i n task hget
    cases hs
    obtain ⟨rfl, hjobs⟩ := eq_singleton_of_getElem? h.jobs_le_one hget
    have hmem : (⟨n, .running task⟩ : Job K E) ∈ s.jobs := by simp [hjobs]
    have hidle := h.idle_of_job hmem
    have hslot := h.unstored_slot _ hmem rfl
    refine ⟨by simp [hjobs], ?_, fun hne => absurd hidle hne, (fun hp => by rw [hidle] at hp; cases hp),
      fun _ _ _ => hslot, fun j hj hst => ?_, h.slotSerial_eq, fun j hj => ?_, h.taken_eq, ?_⟩
    · simp only [h.running_iff, hjobs]; simp
    · simp only [hjobs, List.set_cons_zero, List.mem_singleton] at hj
      subst hj
      cases hst
    · simp only [hjobs, List.set_cons_zero, List.mem_singleton] at hj
      subst hj
      simpa using h.job_serial _ hmem
    · simp [h.submitted_eq, hjobs]
  · cases hs

theorem HandoffInv.jobStore {s s' : Handoff K V E C} (h : HandoffInv s) {i : Nat}
    (hs : step cache s (.jobStore i) = .next s') : HandoffInv s' := by
  simp only [step] at hs
  split at hs
  · rename_i n r hget
    cases hs
    obtain ⟨rfl, hjobs⟩ := eq_singleton_of_getElem? h.jobs_le_one hget
    have hmem : (⟨n, .executed r⟩ : Job K E) ∈ s.jobs := by simp [hjobs]
    have hidle := h.idle_of_job hmem
    have hser := h.job_serial _ hmem
    refine ⟨by simp [hjobs], ?_, fun hne => absurd hidle hne, (fun hp => by rw [hidle] at hp; cases hp),
      fun j hj hst => ?_, fun _ _ _ => rfl, by simpa using hser, fun j hj => ?_, h.taken_eq, ?_⟩
    · show s.inv.isTaskRunning = true ↔ _
      rw [h.running_iff, hjobs]; simp
    · simp only [hjobs, List.set_cons_zero, List.mem_singleton] at hj
      subst hj
      cases hst
    · simp only [hjobs, List.set_cons_zero, List.mem_singleton] at hj
      subst hj
      simpa using hser
    · simp [h.submitted_eq, hjobs]
  · cases hs

theorem HandoffInv.jobClear {s s' : Handoff K V E C} (h : HandoffInv s) {i : Nat}
    (hs : step cache s (.jobClear i) = .next s') : HandoffInv s' := by
  simp only [step] at hs
  split at hs
  · rename_i n hget
    cases hs
    obtain ⟨rfl, hjobs⟩ := eq_singleton_of_getElem? h.jobs_le_one hget
    have hmem : (⟨n, .stored⟩ : Job K E) ∈ s.jobs := by simp [hjobs]
    have hidle := h.idle_of_job hmem
    have hslot := h.stored_slot _ hmem rfl
    refine ⟨by simp [hjobs], by simp [hjobs], fun hne => absurd hidle hne,
      (fun hp => by rw [hidle] at hp; cases hp), fun j hj => by simp [hjobs] at hj,
      fun j hj => by simp [hjobs] at hj, h.slotSerial_eq, fun j hj => by simp [hjobs] at hj,
      h.taken_eq, ?_⟩
    have hsub := h.submitted_eq
    rw [hjobs] at hsub
    simpa [hjobs, Option.isSome_iff_ne_none.1 hslot] using hsub
  · cases hs

/-- **One step keeps the invariant**, whichever thread takes it. -/
theorem HandoffInv.of_step {s s' : Handoff K V E C} (h : HandoffInv s) {a : HandoffAction K V}
    (hs : step cache s a = .next s') : HandoffInv s' := by
  cases a with
  | syncCheck => exact h.syncCheck cache hs
  | syncTakeResult => exact h.syncTakeResult cache hs
  | syncSubmit cands tr => exact h.syncSubmit cache hs
  | syncPrune now =>
    simp only [step] at hs
    split_ifs at hs
    cases hs
    exact h.to_idle (by simp) (by simp) rfl rfl rfl rfl rfl
  | syncSkip =>
    simp only [step] at hs
    split_ifs at hs
    cases hs
    exact h.to_idle rfl rfl rfl rfl rfl rfl rfl
  | register f t =>
    simp only [step, Outcome.next.injEq] at hs
    subst hs
    exact h.of_frame (by simp) (by simp) rfl h.sync_jobs (by simpa using h.processed_slot) rfl rfl rfl
  | remove id =>
    simp only [step, Outcome.next.injEq] at hs
    subst hs
    exact h.of_frame (by simp) (by simp) rfl h.sync_jobs (by simpa using h.processed_slot) rfl rfl rfl
  | jobExecute i => exact h.jobExecute cache hs
  | jobStore i => exact h.jobStore cache hs
  | jobClear i => exact h.jobClear cache hs

theorem HandoffReachable.inv {s : Handoff K V E C} (h : HandoffReachable cache s) :
    HandoffInv s := by
  induction h with
  | init c => exact handoffInv_init c
  | step a _ hs ih => exact ih.of_step cache hs

theorem HandoffInv.not_running_of_sync {s : Handoff K V E C} (h : HandoffInv s)
    (hsync : s.sync ≠ .idle) : s.inv.isTaskRunning = false := by
  cases hr : s.inv.isTaskRunning
  · rfl
  · exact absurd (h.sync_jobs hsync) (h.running_iff.1 hr)

/-- Under the invariant no step panics: only `task_result` and `submit_task` assert, and
the maintenance thread reaches them with the flag down and, for `submit_task`, the slot
empty. -/
theorem HandoffInv.step_ne_panic {s : Handoff K V E C} (h : HandoffInv s)
    (a : HandoffAction K V) (p : HandoffPanic) : step cache s a ≠ .panic p := by
  cases a with
  | syncTakeResult =>
    simp only [step]
    split_ifs with hchecked
    · obtain ⟨o, inv', hres⟩ :=
        Invalidator.taskResult_ok (h.not_running_of_sync (by rw [hchecked]; nofun))
      rw [hres]
      cases o <;> nofun
    · nofun
  | syncSubmit cands tr =>
    simp only [step]
    split_ifs with hen
    · obtain ⟨inv', hsubmit⟩ := Invalidator.submitTask_ok
        (h.not_running_of_sync (by rw [hen.1]; nofun)) (h.processed_slot hen.1) cands tr
      rw [hsubmit]
      nofun
    · nofun
  | syncCheck => simp only [step]; split_ifs <;> nofun
  | syncPrune now => simp only [step]; split_ifs <;> nofun
  | syncSkip => simp only [step]; split_ifs <;> nofun
  | register f t => nofun
  | remove id => nofun
  | jobExecute i => simp only [step]; split <;> nofun
  | jobStore i => simp only [step]; split <;> nofun
  | jobClear i => simp only [step]; split <;> nofun

/-- **The hand-off is safe.** In every state reached by any interleaving of maintenance
steps, predicate registrations and removals, and pool-job steps: no step panics (the
assertions of `submit_task` and `task_result` hold), at most one task is in flight, a job
about to store its result finds the slot empty (a stored result is never overwritten),
and results are taken once each, in submission order, every earlier result having been
taken when the maintenance thread reaches `submit_task`. -/
theorem handoff_safe {s : Handoff K V E C} (h : HandoffReachable cache s) :
    (∀ a p, step cache s a ≠ .panic p) ∧ s.jobs.length ≤ 1 ∧
      (∀ (i n : Nat) (r : InternalInvalidationResult K E),
        s.jobs[i]? = some ⟨n, .executed r⟩ → s.inv.resultSlot = none) ∧
      s.taken = List.range s.taken.length ∧
      (s.sync = .resultProcessed → s.taken.length = s.submitted) := by
  have hi := h.inv
  refine ⟨hi.step_ne_panic cache, hi.jobs_le_one, fun i n r hget => ?_, hi.taken_eq,
    fun hp => ?_⟩
  · exact hi.unstored_slot _ (List.getElem?_mem hget) rfl
  · have hsub := hi.submitted_eq
    simp [hi.sync_jobs (by rw [hp]; nofun), hi.processed_slot hp] at hsub
    exact hsub.symm

/-- A predicate registered; a cycle submits a batch of one candidate; the pool job scans
it, stores its result and ends; the next cycle takes the result. -/
def roundTrip : List (HandoffAction Nat Nat) :=
  [.register (fun _ _ => true) 0, .syncCheck, .syncTakeResult, .syncSubmit [⟨1, 3⟩] true,
    .jobExecute 0, .jobStore 0, .jobClear 0, .syncCheck, .syncTakeResult]

/-- After `roundTrip` the first result has been taken, once, and the hand-off is safe. -/
theorem handoff_safe_after_round_trip :
    let s := (run Invalidator.constCache (init ()) roundTrip).getD (init ())
    HandoffReachable Invalidator.constCache s ∧ s.taken = [0] ∧ s.submitted = 1 ∧
      ((∀ a p, step Invalidator.constCache s a ≠ .panic p) ∧ s.jobs.length ≤ 1 ∧
        (∀ (i n : Nat) (r : InternalInvalidationResult Nat Nat),
          s.jobs[i]? = some ⟨n, .executed r⟩ → s.inv.resultSlot = none) ∧
        s.taken = List.range s.taken.length ∧
        (s.sync = .resultProcessed → s.taken.length = s.submitted)) :=
  have h := HandoffReachable.of_run Invalidator.constCache roundTrip (.init ()) (by rfl)
  ⟨h, rfl, rfl, handoff_safe _ h⟩

end Handoff

end Moka
