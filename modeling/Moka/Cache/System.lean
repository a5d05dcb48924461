import Moka.Cache.Sync

/-!
# The cache as a state machine

The steps of the whole cache: the hot-path calls of any client thread (`insert`, `remove`,
`get`, `invalidate_all`, `invalidate_entries_if`), the maintenance cycle `Inner::sync`, the
steps of an invalidation task on the thread pool, and the clock moving on. A state is
`Inner`, the clock, the pool's job with the position of its scan, the position of the
cycle in progress, and what the clients have in flight.

The threads interleave at the granularity of their shared accesses:

- A client's `insert` (`Cache::insert`, spec §4.2, not in the source) is a sequence of
  steps: each closure call `insert_with_or_modify` makes on what the map holds at that
  moment, the last one storing its entry (a compare-and-swap that succeeds); then the end
  of `do_insert_with_hash` (base_cache.rs:276–293), which picks the `WriteOp` and unsets
  the old entry's pointers; then the send of that op. A `remove` is `remove_entry`
  (base_cache.rs:508–517) and then the send. Each also has a one-step form, the same
  steps with no other thread in between.
- A cycle holds the deques mutex, which keeps only other cycles out: `Inner.cycleStep`
  takes it one op, one sweep iteration or one phase at a time, and clients act between
  any two of them. `sync` is a whole cycle with no other thread in between.
- The scan task's `do_execute` (invalidator.rs:387–411) takes one step for each `apply`
  and one for each `invalidate`, each a map access of its own.

`get_with_hash` and the calls of `invalidate_all` and `invalidate_entries_if` are one step
each. A step that dereferences a dropped node (`useAfterFree`) has no continuation: the
code's behaviour is undefined from there.

## Main results

- `reachable_of_run`: a state a list of steps leads to from a reachable state is reachable.
- **`orphan_node_after_sync`**: after two inserts of one key, the first too heavy for the
  cache, a sync leaves a probation node whose entry is neither in the map, nor in a
  pending write, nor in an invalidation result.
- **`weighted_size_misses_update`**: updating an admitted key to a heavier value leaves
  `weighted_size` at the old weight after the sync.
- **`weighted_size_exceeds_capacity`**: a weight of `2 ^ 64 - 1` wraps the capacity check
  and takes `weighted_size` from 1 to `2 ^ 64 - 1` over a capacity of 10.
-/

namespace Moka

namespace Inner

variable {K V σ : Type} [DecidableEq K] (cfg : Config K V σ)

/-- `record_read_op` (base_cache.rs:225–233): `try_send` into the bounded read channel; a
full channel drops the read. -/
def recordReadOp (s : Inner K V σ) (op : ReadOp V) : Inner K V σ :=
  if s.readOpCh.length < readLogSize then { s with readOpCh := s.readOpCh ++ [op] } else s

/-- `is_invalidated_entry` (base_cache.rs:591–598). -/
def isInvalidatedEntry (s : Inner K V σ) (key : K) (entry : ValueEntry V) : Bool :=
  if cfg.invalidatorEnabled then
    match s.invalidator with
    | some inv => inv.applyPredicates key entry.value (s.lastModified entry)
    | none => false
  else false

/-- `get_with_hash` (base_cache.rs:138–164) at the time `now`: the value of a live entry,
with the read it records. -/
def getWithHash (s : Inner K V σ) (key : K) (hash now : Nat) : Option V × Inner K V σ :=
  match s.cache.lookup key with
  | none => (none, s.recordReadOp (.miss hash))
  | some entry =>
    if isExpiredEntryWo cfg.timeToLive s.validAfter (s.lastModified entry) now ||
        isExpiredEntryAo cfg.timeToIdle s.validAfter (s.lastAccessed entry) now ||
        isInvalidatedEntry cfg s key entry then
      (none, s.recordReadOp (.miss hash))
    else (some entry.value, s.recordReadOp (.hit hash entry now))

/-- `remove_entry` (base_cache.rs:166–173 and 508–517): take the key's entry out of the
map. -/
def removeEntry (s : Inner K V σ) (key : K) : Option (K × ValueEntry V) × Inner K V σ :=
  match s.cache.lookup key with
  | some entry => (some (key, entry), { s with cache := s.cache.erase key })
  | none => (none, s)

/-- Modelled from the spec: `Cache::insert` (§4.2) when no other thread acts during it:
`insert_with_or_modify` calls one closure, `on_modify` if the key is present and
`on_insert` otherwise, and the `WriteOp` returned is sent. -/
def insert (s : Inner K V σ) (key : K) (value : V) : Option (Inner K V σ) :=
  let calls := match s.cache.lookup key with
    | some old => [Invocation.onModify old]
    | none => [.onInsert]
  (doInsertWithHash key (cfg.hasher key) value s calls).map fun (op, s) =>
    { s with writeOpCh := s.writeOpCh ++ [op] }

/-- Modelled from the spec: `Cache::invalidate` (§4.2 "`remove(key)` atomically removes
from the hash map and emits `WriteOp::Remove(entry)`") when no other thread acts
between the two. -/
def remove (s : Inner K V σ) (key : K) : Inner K V σ :=
  match s.removeEntry key with
  | (some (key, entry), s) => { s with writeOpCh := s.writeOpCh ++ [.remove key entry] }
  | (none, s) => s

/-- `invalidate_all` (base_cache.rs:188–191): `valid_after` becomes `now`. -/
def invalidateAll (s : Inner K V σ) (now : Nat) : Inner K V σ := { s with validAfter := now }

/-- `invalidate_entries_if` (base_cache.rs:194–199 and 580–589): register the predicate at
`now`, if the invalidator is there. -/
def invalidateEntriesIf (s : Inner K V σ) (predicate : K → V → Bool) (now : Nat) :
    Inner K V σ :=
  match s.invalidator with
  | some inv => { s with invalidator := some (inv.registerPredicate predicate now).2 }
  | none => s

end Inner

/-- The entry a write op carries. -/
def WriteOp.entry {K V : Type} : WriteOp K V → ValueEntry V
  | .upsert _ e => e
  | .remove _ e => e

/-- A client's `insert` in flight: its key and value, the locals its closures have
written, and whether the map has stored the entry of its last closure call. -/
structure InsertCall (K V : Type) where
  key : K
  value : V
  locals : InsertLocals K V
  stored : Bool

/-- Where a running scan is in the loop of `do_execute` (invalidator.rs:395–404): the
candidates left, the entries removed so far, the newest timestamp, and whether `apply`
matched the first candidate left, whose `invalidate` is then the next step. -/
structure ScanPos (K V : Type) where
  left : List (KeyDateLite K)
  invalidated : List (K × ValueEntry V)
  newest : Option Nat
  matched : Bool

/-- The scan of a task before its first candidate. -/
def ScanPos.start {K V : Type} (task : InvalidationTask K) : ScanPos K V :=
  ⟨task.candidates, [], none, false⟩

/-- The whole cache: `Inner`, the clock, the invalidation task's job on the pool and its
scan, the cycle in progress, the clients' inserts in flight, and the ops clients have
computed and not sent yet. -/
structure Cache (K V σ : Type) where
  inner : Inner K V σ
  now : Nat
  job : Option (JobPc K (ValueEntry V))
  scan : ScanPos K V
  cycle : Option CyclePc
  inserts : List (InsertCall K V)
  outbox : List (WriteOp K V)

/-- The steps of the clients, the maintenance thread, the pool and the clock. -/
inductive CacheAction (K V : Type)
  /-- A client's `insert` with no other thread acting during it. -/
  | insert (key : K) (value : V)
  /-- A client calls `insert`. -/
  | insertStart (key : K) (value : V)
  /-- The `i`-th insert in flight: `insert_with_or_modify` calls a closure on what the
  map holds now, and stores its entry if `commit`. A compare-and-swap fails when another
  thread changed the bucket in between; the model lets any call fail. -/
  | insertCall (i : Nat) (commit : Bool)
  /-- The `i`-th insert, its entry stored: the end of `do_insert_with_hash`. -/
  | insertPick (i : Nat)
  /-- A client's `remove` with no other thread acting during it. -/
  | remove (key : K)
  /-- A client's `remove_entry`. -/
  | removeStart (key : K)
  /-- A client sends the `i`-th op not sent yet. -/
  | send (i : Nat)
  | get (key : K)
  | invalidateAll
  | invalidateEntriesIf (predicate : K → V → Bool)
  /-- A maintenance cycle with no other thread acting during it. -/
  | sync
  /-- The start of a maintenance cycle, or one step of the cycle in progress. -/
  | syncStep
  /-- The pool job runs `apply` (invalidator.rs:413–436) on its next candidate. -/
  | scanApply
  /-- The pool job runs `invalidate` (invalidator.rs:438–449) on a matched candidate. -/
  | scanInvalidate
  /-- The pool job's `do_execute` returns its result (invalidator.rs:406–410). -/
  | taskExecute
  /-- The pool job stores its result (invalidator.rs:377–380). -/
  | taskStore
  /-- The pool job lowers `is_running` (invalidator.rs:382–384). -/
  | taskClear
  | tick (d : Nat)

namespace Cache

variable {K V σ : Type} [DecidableEq K] (cfg : Config K V σ)

/-- A new cache at time 0, with the sketch in its initial state. -/
def init (sketch : σ) : Cache K V σ :=
  ⟨Inner.new cfg sketch, 0, none, ⟨[], [], none, false⟩, none, [], []⟩

/-- The scan context a running task reads. -/
def scanContext (s : Cache K V σ) : List (PredicateImplLite K V) :=
  match s.inner.invalidator with
  | some inv => inv.scanContext
  | none => []

/-- The cache after a maintenance step leaves `inner`; a task it submitted goes on the
pool, its scan before the first candidate. -/
def submit (s : Cache K V σ) (inner : Inner K V σ) : Option (InvalidationTask K) → Cache K V σ
  | some task => { s with inner, job := some (.running task), scan := ScanPos.start task }
  | none => { s with inner }

/-- The closure `insert_with_or_modify` calls for a key: `on_modify` with the entry the
map holds, `on_insert` if it holds none. -/
def closureFor (s : Inner K V σ) (key : K) : Invocation V :=
  match s.cache.lookup key with
  | some old => .onModify old
  | none => .onInsert

/-- One step; `none` when it is not enabled, when `sync` fails an assertion, or when it
dereferences a dropped node. -/
def step (s : Cache K V σ) : CacheAction K V → Option (Cache K V σ)
  | .insert key value => (s.inner.insert cfg key value).map fun inner => { s with inner }
  | .insertStart key value => some { s with inserts := s.inserts ++ [⟨key, value, .init, false⟩] }
  | .insertCall i commit =>
    match s.inserts[i]? with
    | some c =>
      if c.stored then none
      else
        let (entry, inner, locals) := Inner.callClosure c.key (cfg.hasher c.key) c.value
          (s.inner, c.locals) (closureFor s.inner c.key)
        let inner := if commit then { inner with cache := inner.cache.insert c.key entry } else inner
        some { s with inner, inserts := s.inserts.set i { c with locals, stored := commit } }
    | none => none
  | .insertPick i =>
    match s.inserts[i]? with
    | some c =>
      if c.stored then
        (Inner.pickWriteOp s.inner c.locals).map fun (op, inner) =>
          { s with inner, inserts := s.inserts.eraseIdx i, outbox := s.outbox ++ [op] }
      else none
    | none => none
  | .remove key => some { s with inner := s.inner.remove key }
  | .removeStart key =>
    match s.inner.removeEntry key with
    | (some (key, entry), inner) => some { s with inner, outbox := s.outbox ++ [.remove key entry] }
    | (none, inner) => some { s with inner }
  | .send i =>
    match s.outbox[i]? with
    | some op =>
      some { s with inner := { s.inner with writeOpCh := s.inner.writeOpCh ++ [op] },
                    outbox := s.outbox.eraseIdx i }
    | none => none
  | .get key => some { s with inner := (s.inner.getWithHash cfg key (cfg.hasher key) s.now).2 }
  | .invalidateAll => some { s with inner := s.inner.invalidateAll s.now }
  | .invalidateEntriesIf f => some { s with inner := s.inner.invalidateEntriesIf f s.now }
  | .sync =>
    match s.cycle, s.inner.sync cfg maxSyncRepeats s.now with
    | none, .ok (inner, task, _) => if inner.useAfterFree then none else some (s.submit inner task)
    | _, _ => none
  | .syncStep =>
    match s.cycle with
    | none => some { s with cycle := some (.loop 0 true) }
    | some pc =>
      match s.inner.cycleStep cfg s.now pc with
      | .ok (inner, next, task) =>
        if inner.useAfterFree then none else some { s.submit inner task with cycle := next }
      | .error _ => none
  | .scanApply =>
    match s.job, s.scan with
    | some (.running _), ⟨c :: rest, invalidated, _, false⟩ =>
      if InvalidationTask.apply Inner.getOrRemoveEntry s.scanContext s.inner c.key c.timestamp then
        some { s with scan := { s.scan with matched := true } }
      else some { s with scan := ⟨rest, invalidated, some c.timestamp, false⟩ }
    | _, _ => none
  | .scanInvalidate =>
    match s.job, s.scan with
    | some (.running _), ⟨c :: rest, invalidated, _, true⟩ =>
      match InvalidationTask.invalidate Inner.getOrRemoveEntry s.inner c.key c.timestamp with
      | (some e, inner) =>
        some { s with inner, scan := ⟨rest, invalidated ++ [(c.key, e)], some c.timestamp, false⟩ }
      | (none, inner) => some { s with inner, scan := ⟨rest, invalidated, some c.timestamp, false⟩ }
    | _, _ => none
  | .taskExecute =>
    match s.job, s.scan with
    | some (.running task), ⟨[], invalidated, newest, _⟩ =>
      some { s with job := some (.executed ⟨invalidated, task.isTruncated, newest⟩) }
    | _, _ => none
  | .taskStore =>
    match s.job, s.inner.invalidator with
    | some (.executed r), some inv =>
      some { s with inner := { s.inner with invalidator := some { inv with resultSlot := some r } },
                    job := some .stored }
    | _, _ => none
  | .taskClear =>
    match s.job, s.inner.invalidator with
    | some .stored, some inv =>
      some { s with inner := { s.inner with invalidator := some { inv with isTaskRunning := false } },
                    job := none }
    | _, _ => none
  | .tick d => some { s with now := s.now + d }

/-- The states reached from a new cache by any sequence of steps. -/
inductive Reachable (sketch : σ) : Cache K V σ → Prop
  | init : Reachable sketch (init cfg sketch)
  | step {s s' : Cache K V σ} (a : CacheAction K V) :
    Reachable sketch s → step cfg s a = some s' → Reachable sketch s'

/-- A list of steps from a state. -/
def run : Cache K V σ → List (CacheAction K V) → Option (Cache K V σ)
  | s, [] => some s
  | s, a :: as => (step cfg s a).bind fun s => run s as

theorem reachable_of_run {sketch : σ} :
    ∀ {s s' : Cache K V σ} (as : List (CacheAction K V)),
    Reachable cfg sketch s → run cfg s as = some s' → Reachable cfg sketch s'
  | _, _, [], h, hrun => by cases hrun; exact h
  | s, _, a :: as, h, hrun => by
    simp only [run, Option.bind_eq_some] at hrun
    obtain ⟨s₁, h₁, hrest⟩ := hrun
    exact reachable_of_run as (.step a h h₁) hrest

/-! ## What a step can do -/

section Steps

variable {s s' : Cache K V σ}

theorem step_insert {key : K} {value : V} (hs : step cfg s (.insert key value) = some s') :
    ∃ inner, s.inner.insert cfg key value = some inner ∧ s' = { s with inner } := by
  simp only [step, Option.map_eq_some'] at hs
  obtain ⟨inner, hins, rfl⟩ := hs
  exact ⟨inner, hins, rfl⟩

/-- A closure call of an insert in flight, stored in the map when it commits. -/
theorem step_insertCall {i : Nat} {commit : Bool} (hs : step cfg s (.insertCall i commit) = some s') :
    ∃ c, s.inserts[i]? = some c ∧ c.stored = false ∧
      let r := Inner.callClosure c.key (cfg.hasher c.key) c.value (s.inner, c.locals)
        (closureFor s.inner c.key)
      s' = { s with
        inner := if commit then { r.2.1 with cache := r.2.1.cache.insert c.key r.1 } else r.2.1,
        inserts := s.inserts.set i { c with locals := r.2.2, stored := commit } } := by
  simp only [step] at hs
  split at hs
  · rename_i c hc
    split at hs
    · cases hs
    · cases hs
      exact ⟨c, hc, by simpa using ‹¬c.stored = true›, rfl⟩
  · cases hs

/-- The end of `do_insert_with_hash` for a stored insert: its op joins the outbox. -/
theorem step_insertPick {i : Nat} (hs : step cfg s (.insertPick i) = some s') :
    ∃ c op inner, s.inserts[i]? = some c ∧ c.stored = true ∧
      Inner.pickWriteOp s.inner c.locals = some (op, inner) ∧
      s' = { s with inner, inserts := s.inserts.eraseIdx i, outbox := s.outbox ++ [op] } := by
  simp only [step] at hs
  split at hs
  · rename_i c hc
    split_ifs at hs with hst
    obtain ⟨⟨op, inner⟩, hp, rfl⟩ := Option.map_eq_some'.1 hs
    exact ⟨c, op, inner, hc, hst, hp, rfl⟩
  · cases hs

/-- A client's `remove_entry`: the op of an entry it removed joins the outbox. -/
theorem step_removeStart {key : K} (hs : step cfg s (.removeStart key) = some s') :
    ∃ o inner, s.inner.removeEntry key = (o, inner) ∧
      s' = { s with inner, outbox := s.outbox ++ o.toList.map fun kv => .remove kv.1 kv.2 } := by
  simp only [step] at hs
  split at hs <;> cases hs
  · exact ⟨_, _, ‹_›, rfl⟩
  · exact ⟨none, _, ‹_›, by simp⟩

/-- A client sends an op of the outbox into the write channel. -/
theorem step_send {i : Nat} (hs : step cfg s (.send i) = some s') :
    ∃ op, s.outbox[i]? = some op ∧
      s' = { s with inner := { s.inner with writeOpCh := s.inner.writeOpCh ++ [op] },
                    outbox := s.outbox.eraseIdx i } := by
  simp only [step] at hs
  split at hs
  · cases hs
    exact ⟨_, ‹_›, rfl⟩
  · cases hs

/-- A maintenance step is a call of `sync` that succeeded, with its task on the pool. -/
theorem step_sync (hs : step cfg s .sync = some s') :
    ∃ inner task pace, s.cycle = none ∧ s.inner.sync cfg maxSyncRepeats s.now = .ok (inner, task, pace) ∧
      inner.useAfterFree = false ∧ s' = s.submit inner task := by
  simp only [step] at hs
  split at hs
  · split_ifs at hs with huaf
    cases hs
    exact ⟨_, _, _, ‹_›, ‹_›, by simpa using huaf, rfl⟩
  · cases hs

/-- A step of the cycle: its start, or one step of `cycleStep` that succeeded, with the
task it submitted on the pool. -/
theorem step_syncStep (hs : step cfg s .syncStep = some s') :
    (s.cycle = none ∧ s' = { s with cycle := some (.loop 0 true) }) ∨
      ∃ pc inner next task, s.cycle = some pc ∧ s.inner.cycleStep cfg s.now pc = .ok (inner, next, task) ∧
        inner.useAfterFree = false ∧ s' = { s.submit inner task with cycle := next } := by
  simp only [step] at hs
  split at hs
  · cases hs
    exact .inl ⟨‹_›, rfl⟩
  · split at hs
    · split_ifs at hs with huaf
      cases hs
      exact .inr ⟨_, _, _, _, ‹_›, ‹_›, by simpa using huaf, rfl⟩
    · cases hs

/-- The pool job's `apply` of its next candidate: on a match `invalidate` comes next;
otherwise the candidate is done. -/
theorem step_scanApply (hs : step cfg s .scanApply = some s') :
    ∃ task c rest, s.job = some (.running task) ∧ s.scan.left = c :: rest ∧ s.scan.matched = false ∧
      (s' = { s with scan := { s.scan with matched := true } } ∨
        s' = { s with scan := ⟨rest, s.scan.invalidated, some c.timestamp, false⟩ }) := by
  simp only [step] at hs
  split at hs
  · rename_i task c rest inv newest hjob hscan
    split_ifs at hs <;> cases hs
    · exact ⟨task, c, rest, hjob, by rw [hscan], by rw [hscan], .inl rfl⟩
    · exact ⟨task, c, rest, hjob, by rw [hscan], by rw [hscan], .inr (by rw [hscan])⟩
  · cases hs

/-- The pool job's `invalidate` of a matched candidate: the `remove_if` on the map, and
the candidate is done. -/
theorem step_scanInvalidate (hs : step cfg s .scanInvalidate = some s') :
    ∃ task c rest o inner, s.job = some (.running task) ∧ s.scan.left = c :: rest ∧
      InvalidationTask.invalidate Inner.getOrRemoveEntry s.inner c.key c.timestamp = (o, inner) ∧
      s' = { s with inner, scan := ⟨rest, s.scan.invalidated ++ (o.toList.map fun e => (c.key, e)),
        some c.timestamp, false⟩ } := by
  simp only [step] at hs
  split at hs
  · rename_i task c rest inv newest hjob hscan
    split at hs <;> cases hs
    · exact ⟨task, c, rest, _, _, hjob, by rw [hscan], ‹_›, by rw [hscan]; rfl⟩
    · exact ⟨task, c, rest, _, _, hjob, by rw [hscan], ‹_›, by simp [hscan]⟩
  · cases hs

/-- The pool job's `do_execute` returns the result its scan built. -/
theorem step_taskExecute (hs : step cfg s .taskExecute = some s') :
    ∃ task, s.job = some (.running task) ∧ s.scan.left = [] ∧
      s' = { s with job := some (.executed ⟨s.scan.invalidated, task.isTruncated, s.scan.newest⟩) } := by
  simp only [step] at hs
  split at hs
  · rename_i task inv newest m hjob hscan
    cases hs
    exact ⟨task, hjob, by rw [hscan], by rw [hscan]⟩
  · cases hs

/-- The pool job stores its result in the slot. -/
theorem step_taskStore (hs : step cfg s .taskStore = some s') :
    ∃ r inv, s.job = some (.executed r) ∧ s.inner.invalidator = some inv ∧
      s' = { s with inner := { s.inner with invalidator := some { inv with resultSlot := some r } },
                    job := some .stored } := by
  simp only [step] at hs
  split at hs
  · cases hs
    exact ⟨_, _, ‹_›, ‹_›, rfl⟩
  · cases hs

/-- The pool job lowers the running flag and ends. -/
theorem step_taskClear (hs : step cfg s .taskClear = some s') :
    ∃ inv, s.job = some .stored ∧ s.inner.invalidator = some inv ∧
      s' = { s with inner := { s.inner with invalidator := some { inv with isTaskRunning := false } },
                    job := none } := by
  simp only [step] at hs
  split at hs
  · cases hs
    exact ⟨_, ‹_›, ‹_›, rfl⟩
  · cases hs

end Steps

/-! ## What a state refers to -/

/-- The invalidation results no sync has collected yet: the one in the slot, and the one a
job is building or has built but not stored. -/
def uncollected (s : Cache K V σ) : List (K × ValueEntry V) :=
  (match s.inner.invalidator with
    | some inv =>
      match inv.resultSlot with
      | some r => r.invalidated
      | none => []
    | none => []) ++
  match s.job with
  | some (.running _) => s.scan.invalidated
  | some (.executed r) => r.invalidated
  | _ => []

/-- The entry with this id is the map's entry for the key, or is carried by a pending
write, in the channel or not sent yet, or by an uncollected invalidation result. -/
def Refers (s : Cache K V σ) (key : K) (id : Nat) : Prop :=
  (s.inner.cache.lookup key).map ValueEntry.id = some id ∨
    (∃ op ∈ s.inner.writeOpCh ++ s.outbox, op.entry.id = id) ∨ ∃ kv ∈ s.uncollected, kv.2.id = id

/-- Every deque node for a key is owned, through the entry's node pointer, by an entry the
state still refers to for that key (spec §3, invariant 4). -/
def NodesOwned (s : Cache K V σ) : Prop :=
  (∀ region, ∀ n ∈ (s.inner.aoDeque region).nodes, ∀ id,
    (s.inner.qNodes id).accessOrderQNode = some (region, n.id) → s.Refers n.element.key id) ∧
  ∀ n ∈ s.inner.writeOrder.nodes, ∀ id,
    (s.inner.qNodes id).writeOrderQNode = some n.id → s.Refers n.element.key id

/-- No write is pending or in flight, no cycle is running, and no invalidation task is
running or holds a result. -/
def Quiescent (s : Cache K V σ) : Prop :=
  s.inner.writeOpCh.isEmpty = true ∧ s.outbox.isEmpty = true ∧ s.inserts.isEmpty = true ∧
    s.cycle.isNone = true ∧ s.job.isNone = true ∧
    (match s.inner.invalidator with
      | some inv => inv.resultSlot.isNone
      | none => true) = true

/-- The weights of the admitted entries of the map, summed over the natural numbers. -/
def admittedWeight (s : Cache K V σ) : Nat :=
  (s.inner.cache.entries.map fun kv => if s.inner.isAdmitted kv.2 then cfg.weigh kv.1 kv.2.value else 0).sum

end Cache

/-! ## Three runs -/

open Cache

/-- Key 0 written with 20, more than the capacity of 10, then with 10, before any sync. -/
def heavyThenLight : List (CacheAction Nat Nat) := [.insert 0 20, .insert 0 10]

/-- After the two writes, the sync handles the first upsert: the entry weighs more than
the capacity, so `handle_upsert` removes key 0, taking the second entry out of the map.
The second upsert is then admitted: it gets a probation node, while no map entry, pending
write or invalidation result refers to it. -/
theorem orphan_node_after_sync : ∃ s₀ s : Cache Nat Nat Unit,
    Reachable valueWeighedConfig () s₀ ∧ step valueWeighedConfig s₀ .sync = some s ∧
      ¬ NodesOwned s := by
  let c := valueWeighedConfig
  have h₀ : (run c (init c ()) heavyThenLight).isSome = true := by decide
  have h₁ : (step c ((run c (init c ()) heavyThenLight).getD (init c ())) .sync).isSome = true := by
    decide
  refine ⟨_, _, reachable_of_run _ _ .init ((Option.getD_of_ne_none (Option.isSome_iff_ne_none.1 h₀) (init c ())).symm), (Option.getD_of_ne_none (Option.isSome_iff_ne_none.1 h₁) (init c ())).symm,
    fun ⟨hao, _⟩ => ?_⟩
  have := hao .mainProbation ⟨2, .mainProbation, ⟨0, 0, 0⟩⟩ (by decide) 1 (by decide)
  revert this
  simp only [Refers]
  decide

/-- Key 0 written with 1 and synced, then written with 5. -/
def lightThenHeavier : List (CacheAction Nat Nat) := [.insert 0 1, .sync, .insert 0 5]

/-- The second write shares the admitted flag of the first entry, so the sync takes the
update path of `handle_upsert`, which does not weigh the new value: `weighted_size` stays
1 while the map holds one admitted entry weighing 5. -/
theorem weighted_size_misses_update : ∃ s₀ s : Cache Nat Nat Unit,
    Reachable valueWeighedConfig () s₀ ∧ step valueWeighedConfig s₀ .sync = some s ∧
      Quiescent s ∧ s.inner.weightedSize ≠ admittedWeight valueWeighedConfig s := by
  let c := valueWeighedConfig
  have h₀ : (run c (init c ()) lightThenHeavier).isSome = true := by decide
  have h₁ : (step c ((run c (init c ()) lightThenHeavier).getD (init c ())) .sync).isSome = true := by
    decide
  exact ⟨_, _, reachable_of_run _ _ .init ((Option.getD_of_ne_none (Option.isSome_iff_ne_none.1 h₀) (init c ())).symm), (Option.getD_of_ne_none (Option.isSome_iff_ne_none.1 h₁) (init c ())).symm,
    by unfold Quiescent; decide, by decide⟩

/-- Key 0 written with 1 and synced, then key 1 written with `2 ^ 64 - 1`. -/
def lightThenMax : List (CacheAction Nat Nat) := [.insert 0 1, .sync, .insert 1 (2 ^ 64 - 1)]

/-- `has_enough_capacity` adds `2 ^ 64 - 1` to a weighted size of 1 on `u64`, which wraps
to 0, so the sync admits the entry directly, and the saturating add takes `weighted_size`
to `2 ^ 64 - 1`, over the capacity of 10. -/
theorem weighted_size_exceeds_capacity : ∃ s₀ s : Cache Nat Nat Unit,
    Reachable valueWeighedConfig () s₀ ∧ s₀.inner.weightedSize ≤ 10 ∧
      step valueWeighedConfig s₀ .sync = some s ∧ 10 < s.inner.weightedSize := by
  let c := valueWeighedConfig
  have h₀ : (run c (init c ()) lightThenMax).isSome = true := by decide
  have h₁ : (step c ((run c (init c ()) lightThenMax).getD (init c ())) .sync).isSome = true := by
    decide
  exact ⟨_, _, reachable_of_run _ _ .init ((Option.getD_of_ne_none (Option.isSome_iff_ne_none.1 h₀) (init c ())).symm), by decide,
    (Option.getD_of_ne_none (Option.isSome_iff_ne_none.1 h₁) (init c ())).symm, by decide⟩

end Moka
