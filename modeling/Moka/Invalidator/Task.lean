import Moka.Invalidator.Registry

/-!
# The predicate scan task

A scan over the cache's entries runs on a thread pool, a batch at a time. The
maintenance cycle collects the batch from the write-order queue
(`submit_invalidation_task`, base_cache.rs:1142–1176), `Invalidator::submit_task` hands
it to the pool with a snapshot of the registry (invalidator.rs:159–197), the pool runs
`InvalidationTask::do_execute` (invalidator.rs:387–411), and a later maintenance cycle
processes the result with `Invalidator::task_result` (invalidator.rs:199–232), which
shrinks the snapshot to the predicates the rest of the queue can still need.

The task reaches the cache through the trait `GetOrRemoveEntry`; here it is a record of
functions over an abstract cache state `C`, so that the same task runs against any cache.

## Main results

- `applyPredicates_agrees_with_scan`: on every reachable registry the read path and the
  scan task decide the same entries, and both decide "some registered predicate,
  registered at or after the last modification, matches".
- `taskResult_prunes_soundly`: on a write-order queue with nondecreasing timestamps, the
  predicates `task_result` drops cannot apply to any node after the batch, and `is_done`
  is reported only when the batch reached the end or nothing left can apply.
-/

namespace Moka

variable {K V E C : Type}

/-- A scan candidate, `KeyDateLite` (invalidator.rs:40–61): a key and the `last_modified`
it had when the batch was collected. -/
structure KeyDateLite (K : Type) where
  key : K
  timestamp : Nat

/-- The trait `GetOrRemoveEntry` (invalidator.rs:344–350), with the two reads the task
makes of a `ValueEntry`: `last_modified()` and `value`. -/
structure GetOrRemoveEntry (C K V E : Type) where
  getValueEntry : C → K → Option E
  removeKeyValueIf : C → K → (E → Bool) → Option E × C
  lastModified : C → E → Option Nat
  value : E → V

/-- A batch handed to the pool, `InvalidationTask` (invalidator.rs:352–360); the scan
context's predicates are read when it runs. -/
structure InvalidationTask (K : Type) where
  candidates : List (KeyDateLite K)
  isTruncated : Bool

/-- What `task_result` hands to the maintenance cycle, `InvalidationResult`
(invalidator.rs:452–455). -/
structure InvalidationResult (K E : Type) where
  invalidated : List (K × E)
  isDone : Bool

/-- A failed `assert!` of the hand-off between the maintenance cycle and the pool. -/
inductive HandoffPanic
  /-- In `submit_task`: `assert!(!self.is_task_running())` (invalidator.rs:166). -/
  | submitWhileRunning
  /-- In `submit_task`: `assert!(self.task_result.lock().is_none())` (invalidator.rs:167). -/
  | submitWithPendingResult
  /-- In `task_result`: `assert!(!self.is_task_running())` (invalidator.rs:200). -/
  | resultWhileRunning
  deriving DecidableEq, Repr

/-! ## The task -/

namespace InvalidationTask

variable (cache : GetOrRemoveEntry C K V E)

/-- The check of one candidate, `apply` (invalidator.rs:413–436): only the entry still
modified at the candidate's timestamp is tested. -/
def apply (predicates : List (PredicateImplLite K V)) (c : C) (key : K) (ts : Nat) : Bool :=
  match cache.getValueEntry c key with
  | some entry =>
    match cache.lastModified c entry with
    | some lm => if lm = ts then doApplyPredicates predicates key (cache.value entry) lm else false
    | none => false
  | none => false

/-- The removal of one candidate, `invalidate` (invalidator.rs:438–449): remove the entry
only if it is still the one modified at `ts`. -/
def invalidate (c : C) (key : K) (ts : Nat) : Option E × C :=
  cache.removeKeyValueIf c key fun v =>
    match cache.lastModified c v with
    | some lm => lm == ts
    | none => false

/-- One iteration of the loop of `do_execute` (invalidator.rs:395–404): test the
candidate, remove it if a predicate matches, and record its timestamp as the newest. -/
def scanStep (predicates : List (PredicateImplLite K V))
    (acc : List (K × E) × Option Nat × C) (candidate : KeyDateLite K) :
    List (K × E) × Option Nat × C :=
  let (invalidated, _, c) := acc
  if apply cache predicates c candidate.key candidate.timestamp then
    match invalidate cache c candidate.key candidate.timestamp with
    | (some entry, c) => (invalidated ++ [(candidate.key, entry)], some candidate.timestamp, c)
    | (none, c) => (invalidated, some candidate.timestamp, c)
  else (invalidated, some candidate.timestamp, c)

/-- The method `do_execute` (invalidator.rs:387–411), with the scan context's predicates. -/
def doExecute (task : InvalidationTask K) (predicates : List (PredicateImplLite K V))
    (c : C) : InternalInvalidationResult K E × C :=
  let (invalidated, newest, c) := task.candidates.foldl (scanStep cache predicates) ([], none, c)
  (⟨invalidated, task.isTruncated, newest⟩, c)

/-- The work of `execute` (invalidator.rs:367–382) before its result is stored: the
cache is `none` once it has been dropped and the weak pointer no longer upgrades. -/
def execute (task : InvalidationTask K) (predicates : List (PredicateImplLite K V)) :
    Option C → InternalInvalidationResult K E × Option C
  | some c => let r := doExecute cache task predicates c; (r.1, some r.2)
  | none => (InternalInvalidationResult.default, none)

@[simp] theorem scanStep_newest (predicates : List (PredicateImplLite K V))
    (acc : List (K × E) × Option Nat × C) (candidate : KeyDateLite K) :
    (scanStep cache predicates acc candidate).2.1 = some candidate.timestamp := by
  obtain ⟨_, _, c⟩ := acc
  simp only [scanStep]
  split_ifs
  · split <;> rfl
  · rfl

/-- The newest timestamp `do_execute` records is the last candidate's. -/
theorem doExecute_newestTimestamp (task : InvalidationTask K)
    (predicates : List (PredicateImplLite K V)) (c : C) :
    (doExecute cache task predicates c).1.newestTimestamp =
      task.candidates.getLast?.map KeyDateLite.timestamp := by
  suffices h : ∀ l : List (KeyDateLite K),
      (l.foldl (scanStep cache predicates) ([], none, c)).2.1 = l.getLast?.map KeyDateLite.timestamp
    from h task.candidates
  intro l
  induction l using List.reverseRecOn with
  | nil => rfl
  | append_singleton l x _ => simp

@[simp] theorem doExecute_isTruncated (task : InvalidationTask K)
    (predicates : List (PredicateImplLite K V)) (c : C) :
    (doExecute cache task predicates c).1.isTruncated = task.isTruncated := rfl

end InvalidationTask

/-! ## Submission and collection of results -/

namespace Invalidator

/-- The snapshot `submit_task` takes of the registry (invalidator.rs:172–177). -/
def snapshot (inv : Invalidator K V E) : List (PredicateImplLite K V) :=
  inv.predicateValues.map PredicateImplLite.new

/-- The method `submit_task` (invalidator.rs:159–197) up to the hand-off to the pool:
check the two assertions, take a snapshot if the scan context has none, raise
`is_task_running`, and return the task for the pool. -/
def submitTask (inv : Invalidator K V E) (candidates : List (KeyDateLite K))
    (isTruncated : Bool) : Except HandoffPanic (Invalidator K V E × InvalidationTask K) :=
  if inv.isTaskRunning then .error .submitWhileRunning
  else if inv.resultSlot.isSome then .error .submitWithPendingResult
  else
    let ctx := if inv.scanContext.isEmpty then inv.snapshot else inv.scanContext
    .ok ({ inv with scanContext := ctx, isTaskRunning := true }, ⟨candidates, isTruncated⟩)

/-- The scan context after a result: cut to the predicates registered at or after the
newest scanned timestamp if the batch was truncated, emptied otherwise
(invalidator.rs:210–223). -/
def prunedContext (ctx : List (PredicateImplLite K V)) (r : InternalInvalidationResult K E) :
    List (PredicateImplLite K V) :=
  if r.isTruncated then
    match r.newestTimestamp with
    | some ts => ctx.filter fun p => decide (ts ≤ p.registeredAt)
    | none => ctx
  else []

/-- The method `task_result` (invalidator.rs:199–232). -/
def taskResult (inv : Invalidator K V E) :
    Except HandoffPanic (Option (InvalidationResult K E) × Invalidator K V E) :=
  if inv.isTaskRunning then .error .resultWhileRunning
  else
    match inv.resultSlot with
    | none => .ok (none, inv)
    | some r =>
      let ctx := prunedContext inv.scanContext r
      let isDone := if r.isTruncated then ctx.isEmpty else true
      .ok (some ⟨r.invalidated, isDone⟩, { inv with resultSlot := none, scanContext := ctx })

/-- Everything `task_result` can do: fail its assertion while a task runs, return `None`
on an empty slot, or take the result, prune the scan context and report `is_done`. -/
theorem taskResult_eq_ok {inv : Invalidator K V E} {o : Option (InvalidationResult K E)}
    {inv' : Invalidator K V E} (h : inv.taskResult = .ok (o, inv')) :
    inv.isTaskRunning = false ∧
      ((inv.resultSlot = none ∧ o = none ∧ inv' = inv) ∨
        ∃ r, inv.resultSlot = some r ∧
          o = some ⟨r.invalidated,
            if r.isTruncated then (prunedContext inv.scanContext r).isEmpty else true⟩ ∧
          inv' = { inv with resultSlot := none, scanContext := prunedContext inv.scanContext r }) := by
  unfold taskResult at h
  split_ifs at h with hrun
  refine ⟨by simpa using hrun, ?_⟩
  cases hslot : inv.resultSlot with
  | none =>
    simp only [hslot, Except.ok.injEq, Prod.mk.injEq] at h
    exact .inl ⟨rfl, h.1.symm, h.2.symm⟩
  | some r =>
    simp only [hslot, Except.ok.injEq, Prod.mk.injEq] at h
    exact .inr ⟨r, rfl, h.1.symm, h.2.symm⟩

/-! ## The read path and the scan agree -/

/-- The snapshot decides like the registry it was taken from: `PredicateImplLite::new`
copies everything `is_applicable` and `apply` read. -/
theorem doApplyPredicates_snapshot (ps : List (PredicateImpl K V)) (key : K) (value : V)
    (ts : Nat) :
    doApplyPredicates (ps.map PredicateImplLite.new) key value ts =
      doApplyPredicates ps key value ts := by
  induction ps <;> simp_all [doApplyPredicates, Predicate.isApplicable, Predicate.apply]

/-- Under the registry invariant the `is_empty` shortcut changes nothing. -/
theorem RegistryInv.applyPredicates_eq {inv : Invalidator K V E} (h : RegistryInv inv)
    (key : K) (value : V) (lm : Nat) :
    inv.applyPredicates key value (some lm) =
      doApplyPredicates inv.predicateValues key value lm := by
  cases hempty : inv.isEmpty
  · simp [applyPredicates, hempty]
  · simp [applyPredicates, hempty, predicateValues, h.isEmpty_iff.1 hempty, doApplyPredicates]

/-- **Read path and scan agree.** For every registry reached by registrations and
removals, and an entry that is the key's current map entry with value `v` and
`last_modified = lm`: `apply_predicates` on the read path answers as
`InvalidationTask::apply` does with the snapshot `submit_task` takes, and both answer
whether some registered predicate, registered at or after `lm`, matches `(key, v)`. -/
theorem applyPredicates_agrees_with_scan {inv : Invalidator K V E}
    (hreach : RegistryReachable inv) (cache : GetOrRemoveEntry C K V E) (c : C) (key : K)
    (entry : E) (lm : Nat) (hget : cache.getValueEntry c key = some entry)
    (hlm : cache.lastModified c entry = some lm) :
    (inv.applyPredicates key (cache.value entry) (some lm) = true ↔
      InvalidationTask.apply cache inv.snapshot c key lm = true) ∧
    (inv.applyPredicates key (cache.value entry) (some lm) = true ↔
      ∃ id p, inv.predicates.lookup id = some p ∧ lm ≤ p.registeredAt ∧
        p.f key (cache.value entry) = true) := by
  have hinv := hreach.inv
  refine ⟨?_, hinv.applyPredicates_iff key _ lm⟩
  simp [InvalidationTask.apply, hget, hlm, hinv.applyPredicates_eq, snapshot,
    doApplyPredicates_snapshot]

/-- A registry with one predicate, `k == v`, registered at time 5. -/
def matchRegistry : Invalidator Nat Nat Nat :=
  ((new : Invalidator Nat Nat Nat).registerPredicate (fun k v => k == v) 5).2

/-- A cache whose every key maps to an entry equal to the key, modified at time 3. -/
def constCache : GetOrRemoveEntry Unit Nat Nat Nat :=
  ⟨fun _ k => some k, fun c _ _ => (none, c), fun _ _ => some 3, id⟩

theorem applyPredicates_agrees_with_scan_at_match :
    RegistryReachable matchRegistry ∧ constCache.getValueEntry () 1 = some 1 ∧
      constCache.lastModified () 1 = some 3 ∧
      (matchRegistry.applyPredicates 1 (constCache.value 1) (some 3) = true ↔
        InvalidationTask.apply constCache matchRegistry.snapshot () 1 3 = true) ∧
      (matchRegistry.applyPredicates 1 (constCache.value 1) (some 3) = true ↔
        ∃ id p, matchRegistry.predicates.lookup id = some p ∧ 3 ≤ p.registeredAt ∧
          p.f 1 (constCache.value 1) = true) :=
  ⟨.register _ _ .new, rfl, rfl,
    applyPredicates_agrees_with_scan (.register _ _ .new) constCache () 1 1 3 rfl rfl⟩

end Invalidator

/-! ## Pruning the scan context -/

variable {α : Type} (key : α → K) (timestamp : α → Option Nat)

/-- The collection loop of `submit_invalidation_task` (base_cache.rs:1157–1170), over the
nodes the write-order iterator still yields from its scan position: while fewer than
`remaining` more candidates are wanted, take the next node and keep it if it has a
timestamp. Returns the candidates and the nodes not yet yielded. -/
def collectCandidates (remaining : Nat) : List α → List (KeyDateLite K) × List α
  | [] => ([], [])
  | kd :: rest =>
    if remaining = 0 then ([], kd :: rest)
    else
      match timestamp kd with
      | some ts =>
        let r := collectCandidates (remaining - 1) rest
        (⟨key kd, ts⟩ :: r.1, r.2)
      | none => collectCandidates remaining rest

/-- The loop stops at a suffix of the queue; the candidates are the timestamped nodes
before it, at most `remaining` of them, and fewer only when the queue ran out. -/
theorem collectCandidates_spec (remaining : Nat) (q : List α) :
    ∃ pre, q = pre ++ (collectCandidates key timestamp remaining q).2 ∧
      (collectCandidates key timestamp remaining q).1 =
        pre.filterMap (fun kd => (timestamp kd).map (KeyDateLite.mk (key kd))) ∧
      (collectCandidates key timestamp remaining q).1.length ≤ remaining ∧
      ((collectCandidates key timestamp remaining q).1.length < remaining →
        (collectCandidates key timestamp remaining q).2 = []) := by
  induction q generalizing remaining with
  | nil => exact ⟨[], rfl, rfl, Nat.zero_le _, fun _ => rfl⟩
  | cons kd rest ih =>
    by_cases h0 : remaining = 0
    · subst h0
      exact ⟨[], by simp [collectCandidates], by simp [collectCandidates], by simp [collectCandidates],
        fun h => absurd h (Nat.not_lt_zero _)⟩
    · cases hts : timestamp kd with
      | some ts =>
        obtain ⟨pre, hq, hc, hle, hlt⟩ := ih (remaining - 1)
        have hstep : collectCandidates key timestamp remaining (kd :: rest) =
            (⟨key kd, ts⟩ :: (collectCandidates key timestamp (remaining - 1) rest).1,
              (collectCandidates key timestamp (remaining - 1) rest).2) := by
          simp [collectCandidates, h0, hts]
        rw [hstep]
        refine ⟨kd :: pre, congrArg (kd :: ·) hq, by simp [hc, hts], ?_, fun h => hlt ?_⟩ <;>
          simp only [List.length_cons] at * <;> omega
      | none =>
        obtain ⟨pre, hq, hc, hle, hlt⟩ := ih remaining
        have hstep : collectCandidates key timestamp remaining (kd :: rest) =
            collectCandidates key timestamp remaining rest := by
          simp [collectCandidates, h0, hts]
        rw [hstep]
        exact ⟨kd :: pre, congrArg (kd :: ·) hq, by simp [hc, hts], hle, hlt⟩

/-- On a queue whose timestamps are nondecreasing, every timestamp after the batch is at
least the batch's newest. -/
theorem le_of_collected {q : List α} (hsorted : (q.filterMap timestamp).Pairwise (· ≤ ·))
    {remaining : Nat} {cand : KeyDateLite K}
    (hc : cand ∈ (collectCandidates key timestamp remaining q).1)
    {kd : α} (hkd : kd ∈ (collectCandidates key timestamp remaining q).2) {t : Nat}
    (ht : timestamp kd = some t) : cand.timestamp ≤ t := by
  obtain ⟨pre, hq, hcands, -, -⟩ := collectCandidates_spec key timestamp remaining q
  rw [hq, List.filterMap_append, List.pairwise_append] at hsorted
  rw [hcands, List.mem_filterMap] at hc
  obtain ⟨x, hx, hxts⟩ := hc
  cases htx : timestamp x with
  | none => simp [htx] at hxts
  | some tx =>
    simp only [htx, Option.map_some', Option.some.injEq] at hxts
    subst hxts
    exact hsorted.2.2 _ (List.mem_filterMap.2 ⟨x, hx, htx⟩) _
      (List.mem_filterMap.2 ⟨kd, hkd, ht⟩)

/-- A batch that is not truncated reached the end of the queue. -/
theorem rest_eq_nil_of_not_truncated {q : List α} {b : Nat} {cands : List (KeyDateLite K)}
    {rest : List α} (hcollect : collectCandidates key timestamp b q = (cands, rest))
    (h : (cands.length == b && !rest.isEmpty) = false) : rest = [] := by
  obtain ⟨-, -, -, hle, hlt⟩ := collectCandidates_spec key timestamp b q
  simp only [hcollect] at hle hlt
  cases hrest : rest.isEmpty
  · have hne : cands.length ≠ b := by simpa [hrest] using h
    exact hlt (by omega)
  · exact List.isEmpty_iff.1 hrest

theorem PredicateImplLite.isApplicable_eq_false {p : PredicateImplLite K V} {t : Nat}
    (h : p.registeredAt < t) : p.isApplicable t = false := by
  simp [PredicateImplLite.isApplicable, Nat.not_le.2 h]

/-- **Pruning is sound.** Take a write-order queue, from the scan position on, whose set
timestamps are nondecreasing; a batch `submit_invalidation_task` collects from it and
submits; the result `do_execute` leaves for it in the slot; and `task_result` processing
that result. Every predicate `task_result` drops from the scan snapshot is inapplicable to
every timestamp after the batch, and `is_done` is reported only if the batch reached the
end of the queue or every predicate left is inapplicable to every timestamp after it. -/
theorem taskResult_prunes_soundly {q : List α}
    (hsorted : (q.filterMap timestamp).Pairwise (· ≤ ·)) {b : Nat}
    {cands : List (KeyDateLite K)} {rest : List α}
    (hcollect : collectCandidates key timestamp b q = (cands, rest)) (hsubmit : cands ≠ [])
    (cache : GetOrRemoveEntry C K V E) (c : C) {inv : Invalidator K V E}
    (hslot : inv.resultSlot = some (InvalidationTask.doExecute cache
      ⟨cands, cands.length == b && !rest.isEmpty⟩ inv.scanContext c).1)
    {res : InvalidationResult K E} {inv' : Invalidator K V E}
    (hres : inv.taskResult = .ok (some res, inv')) :
    (∀ p ∈ inv.scanContext, p ∉ inv'.scanContext →
      ∀ kd ∈ rest, ∀ t, timestamp kd = some t → p.isApplicable t = false) ∧
    (res.isDone = true → rest = [] ∨
      ∀ p ∈ inv'.scanContext, ∀ kd ∈ rest, ∀ t, timestamp kd = some t →
        p.isApplicable t = false) := by
  obtain ⟨-, ⟨hnone, -⟩ | ⟨r, hr, ho, rfl⟩⟩ := Invalidator.taskResult_eq_ok hres
  · simp [hslot] at hnone
  rw [hslot, Option.some.injEq] at hr
  obtain ⟨last, hlast⟩ : ∃ last, cands.getLast? = some last :=
    Option.isSome_iff_exists.1 (List.getLast?_isSome.2 hsubmit)
  have hnewest : r.newestTimestamp = some last.timestamp := by
    rw [← hr, InvalidationTask.doExecute_newestTimestamp]
    simp [hlast]
  have htrunc : r.isTruncated = (cands.length == b && !rest.isEmpty) := by rw [← hr]; rfl
  have hafter : ∀ kd ∈ rest, ∀ t, timestamp kd = some t → last.timestamp ≤ t :=
    fun kd hkd t ht => le_of_collected key timestamp hsorted
      (by rw [hcollect]; exact List.mem_of_getLast?_eq_some hlast) (by rw [hcollect]; exact hkd) ht
  simp only [Option.some.injEq] at ho
  subst ho
  cases htr : r.isTruncated
  · have hrest := rest_eq_nil_of_not_truncated key timestamp hcollect (htrunc ▸ htr)
    subst hrest
    simp
  · have hctx : Invalidator.prunedContext inv.scanContext r =
        inv.scanContext.filter fun p => decide (last.timestamp ≤ p.registeredAt) := by
      simp [Invalidator.prunedContext, htr, hnewest]
    simp only [hctx, if_true]
    refine ⟨fun p hp hdrop kd hkd t ht => ?_, fun hdone => .inr ?_⟩
    · have hlt : p.registeredAt < last.timestamp := by
        by_contra hge
        exact hdrop (List.mem_filter.2 ⟨hp, by simpa using hge⟩)
      exact PredicateImplLite.isApplicable_eq_false (by have := hafter kd hkd t ht; omega)
    · simp only [List.isEmpty_iff] at hdone
      simp [hdone]

/-- A queue of two nodes, modified at 6 and 7, after `matchRegistry`'s predicate was
registered at 5. -/
def laterNodes : List (Nat × Option Nat) := [(1, some 6), (2, some 7)]

/-- The first node scanned in a batch of one, its result waiting in the slot. -/
def scannedInv : Invalidator Nat Nat Nat :=
  { Invalidator.matchRegistry with
    scanContext := Invalidator.matchRegistry.snapshot
    resultSlot := some (InvalidationTask.doExecute Invalidator.constCache ⟨[⟨1, 6⟩], true⟩
      Invalidator.matchRegistry.snapshot ()).1 }

/-- The batch's newest timestamp, 6, is past the predicate's registration at 5, so
`task_result` drops the only predicate of the snapshot and reports the scan done; the
dropped predicate is inapplicable to the node modified at 7. -/
theorem taskResult_prunes_soundly_past_registration :
    (laterNodes.filterMap Prod.snd).Pairwise (· ≤ ·) ∧
      collectCandidates Prod.fst Prod.snd 1 laterNodes = ([⟨1, 6⟩], laterNodes.drop 1) ∧
      [(⟨1, 6⟩ : KeyDateLite Nat)] ≠ [] ∧
      scannedInv.resultSlot = some (InvalidationTask.doExecute Invalidator.constCache
        ⟨[⟨1, 6⟩], [(⟨1, 6⟩ : KeyDateLite Nat)].length == 1 && !(laterNodes.drop 1).isEmpty⟩
        scannedInv.scanContext ()).1 ∧
      scannedInv.scanContext.length = 1 ∧
      scannedInv.taskResult = .ok (some ⟨[], true⟩,
        { scannedInv with resultSlot := none, scanContext := [] }) ∧
      ((∀ p ∈ scannedInv.scanContext, p ∉ ([] : List (PredicateImplLite Nat Nat)) →
          ∀ kd ∈ laterNodes.drop 1, ∀ t, kd.2 = some t → p.isApplicable t = false) ∧
        ((⟨[], true⟩ : InvalidationResult Nat Nat).isDone = true → laterNodes.drop 1 = [] ∨
          ∀ p ∈ ([] : List (PredicateImplLite Nat Nat)), ∀ kd ∈ laterNodes.drop 1, ∀ t,
            kd.2 = some t → p.isApplicable t = false)) :=
  ⟨by decide, rfl, List.cons_ne_nil _ _, rfl, rfl, rfl,
    @taskResult_prunes_soundly _ _ _ _ _ Prod.fst Prod.snd laterNodes (by decide) 1 _ _ rfl
      (List.cons_ne_nil _ _) Invalidator.constCache () scannedInv rfl _ _ rfl⟩

end Moka
