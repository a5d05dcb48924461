import Moka.Cache.Insert
import Moka.Invalidator.Handoff

/-!
# The maintenance cycle

`Inner::sync` (base_cache.rs:639–696) holds the deques mutex and replays what the hot
path recorded: the reads (`apply_reads`, base_cache.rs:714–729) and the writes
(`apply_writes`, base_cache.rs:731–744, with `handle_upsert`, `handle_admit` and
`handle_remove`, base_cache.rs:746–941); then it sweeps expired entries (`evict` and the
two sweepers, base_cache.rs:960–1109) and collects and submits invalidation work
(`invalidate_entries`, base_cache.rs:1111–1176). The weighted size is a local of the cycle
(`WeightedSize`, base_cache.rs:352–375) published at its end; here it is the state's
`weightedSize` throughout, which only the cycle writes.

`sync` runs a cycle with no client call in between; `cycleStep` takes it one atomic step
at a time, so that a model of the whole cache can interleave client calls with it.

## Main results

- **`handleUpsert_unadmitted_removes_key`**: when `handle_upsert` does not admit an
  entry, the key leaves the map, whichever entry the map held for it.
-/

namespace Moka

/-- `MAX_SYNC_REPEATS` (base_cache.rs:33). -/
def maxSyncRepeats : Nat := 4

/-- `READ_LOG_FLUSH_POINT` (base_cache.rs:35). -/
def readLogFlushPoint : Nat := 512

/-- `READ_LOG_SIZE` (base_cache.rs:36), the bound of the read channel. -/
def readLogSize : Nat := readLogFlushPoint * (maxSyncRepeats + 2)

/-- `WRITE_LOG_FLUSH_POINT` (base_cache.rs:38). -/
def writeLogFlushPoint : Nat := 512

/-- `WRITE_LOG_LOW_WATER_MARK` (base_cache.rs:39). -/
def writeLogLowWaterMark : Nat := writeLogFlushPoint / 2

/-- `EVICTION_BATCH_SIZE` (base_cache.rs:640). -/
def evictionBatchSize : Nat := 500

/-- `INVALIDATION_BATCH_SIZE` (base_cache.rs:641). -/
def invalidationBatchSize : Nat := 500

/-- The pace `sync` asks of the housekeeper, `SyncPace`. -/
inductive SyncPace
  | normal
  | fast
  deriving DecidableEq, Repr

/-- Which deque a sweep of `evict` walks. -/
inductive SweepTarget
  | writeOrder
  | accessOrder (region : CacheRegion)
  deriving DecidableEq, Repr

/-- Where a cycle is in `Inner::sync` (base_cache.rs:639–696), with the locals it carries. -/
inductive CyclePc
  /-- At the test of the loop, after `calls` passes (base_cache.rs:651). -/
  | loop (calls : Nat) (shouldSync : Bool)
  /-- In `apply_reads`, with `count` reads left to take. -/
  | reads (calls count : Nat)
  /-- In `apply_writes`, with `count` writes left to take and its clock reading `ts`. -/
  | writes (calls count ts : Nat)
  /-- In a sweep of `evict`, with `left` iterations left, and the clock reading and
  `valid_after` the sweep took. -/
  | sweep (target : SweepTarget) (left now validAfter : Nat)
  /-- At the invalidation phase. -/
  | invalidate
  deriving DecidableEq, Repr

/-- The expiry test shared by `is_expired_entry_ao` and `is_expired_entry_wo`
(base_cache.rs:1216–1249): a set timestamp is expired if it precedes `valid_after`, or if
a timeout is set and has run out. -/
def isExpiredEntry (timeout : Option Nat) (validAfter : Nat) (ts : Option Nat) (now : Nat) :
    Bool :=
  match ts with
  | some ts =>
    if ts < validAfter then true
    else
      match timeout with
      | some t => decide (ts + t ≤ now)
      | none => false
  | none => false

/-- `is_expired_entry_ao` (base_cache.rs:1216–1231), on a `last_accessed()`. -/
def isExpiredEntryAo (timeToIdle : Option Nat) (validAfter : Nat) (lastAccessed : Option Nat)
    (now : Nat) : Bool :=
  isExpiredEntry timeToIdle validAfter lastAccessed now

/-- `is_expired_entry_wo` (base_cache.rs:1234–1249), on a `last_modified()`. -/
def isExpiredEntryWo (timeToLive : Option Nat) (validAfter : Nat) (lastModified : Option Nat)
    (now : Nat) : Bool :=
  isExpiredEntry timeToLive validAfter lastModified now

theorem isExpiredEntry_none (timeout : Option Nat) (validAfter now : Nat) :
    isExpiredEntry timeout validAfter none now = false := rfl

namespace Inner

variable {K V σ : Type} [DecidableEq K] (cfg : Config K V σ)

/-- `has_valid_after` (base_cache.rs:575–577). -/
def hasValidAfter (s : Inner K V σ) : Bool := decide (s.validAfter > 0)

/-- `has_enough_capacity` (base_cache.rs:708–712): `ws.size + candidate_weight` on `u64`. -/
def hasEnoughCapacity (candidateWeight ws : Nat) : Bool :=
  match cfg.maxCapacity with
  | some limit => decide (wrappingAdd ws candidateWeight ≤ limit)
  | none => true

/-! ## Admission and removal -/

/-- `handle_admit` (base_cache.rs:906–926). -/
def handleAdmit (s : Inner K V σ) (kh : KeyHash K) (entry : ValueEntry V) (policyWeight : Nat) :
    Inner K V σ :=
  let s := { s with weightedSize := saturatingAdd s.weightedSize policyWeight }
  let s := s.pushBackAo .mainProbation ⟨kh.key, kh.hash, entry.info⟩ entry
  let s := if cfg.isWriteOrderQueueEnabled then s.pushBackWo ⟨kh.key, entry.info⟩ entry else s
  s.setIsAdmitted entry true

/-- The body shared by `handle_remove` and `handle_remove_with_deques`
(base_cache.rs:928–958): an admitted entry is unadmitted, its weight taken off, and its
nodes unlinked, the access-order one by `unlinkAo`; then its pointers are unset. -/
def handleRemoveWith (unlinkAo : Inner K V σ → ValueEntry V → Inner K V σ) (s : Inner K V σ)
    (key : K) (entry : ValueEntry V) : Inner K V σ :=
  let s :=
    if s.isAdmitted entry then
      let s := s.setIsAdmitted entry false
      let s := { s with weightedSize := saturatingSub s.weightedSize (cfg.weigh key entry.value) }
      (unlinkAo s entry).unlinkWo entry
    else s
  s.unsetQNodes entry

/-- `handle_remove` (base_cache.rs:928–941). -/
def handleRemove (s : Inner K V σ) (key : K) (entry : ValueEntry V) : Inner K V σ :=
  handleRemoveWith cfg (fun s e => s.unlinkAo e) s key entry

/-- `handle_remove_with_deques` (base_cache.rs:943–958), with the access-order deque the
sweeper is on. -/
def handleRemoveWithDeques (region : CacheRegion) (s : Inner K V σ) (key : K)
    (entry : ValueEntry V) : Inner K V σ :=
  handleRemoveWith cfg (fun s e => s.unlinkAoFromDeque region e) s key entry

/-- The victims' loop of `handle_upsert` (base_cache.rs:793–808): each victim node is
dereferenced for its key, the key removed from the map with `remove_entry`, and the entry
removed is handled; a key already gone adds the node to the skipped ones. A victim node
that an earlier victim's `handle_remove` unlinked has been dropped, so reading its key is
a use after free. -/
def removeVictims : Inner K V σ → List (DeqNode (KeyHashDate K)) →
    List (DeqNode (KeyHashDate K)) → Inner K V σ × List (DeqNode (KeyHashDate K))
  | s, skipped, [] => (s, skipped)
  | s, skipped, victim :: rest =>
    if s.probation.contains victim.id then
      match s.cache.lookup victim.element.key with
      | some vicEntry =>
        removeVictims (handleRemove cfg { s with cache := s.cache.erase victim.element.key }
          victim.element.key vicEntry) skipped rest
      | none => removeVictims s (skipped ++ [victim]) rest
    else (s.derefDropped, skipped)

/-- The last loop of `handle_upsert` (base_cache.rs:820–824): the skipped nodes go to the
back of probation; moving one that was unlinked, and so dropped, is a use after free. -/
def moveSkipped (s : Inner K V σ) (skipped : List (DeqNode (KeyHashDate K))) : Inner K V σ :=
  skipped.foldl (fun s node =>
    if s.probation.contains node.id then { s with probation := s.probation.moveToBack node.id }
    else s.derefDropped) s

/-- `handle_upsert` (base_cache.rs:746–825). -/
def handleUpsert (s : Inner K V σ) (kh : KeyHash K) (entry : ValueEntry V) (timestamp : Nat) :
    Inner K V σ :=
  let s := (s.setLastAccessed entry timestamp).setLastModified entry timestamp
  if s.isAdmitted entry then (s.moveToBackAo entry).moveToBackWo entry
  else
    let policyWeight := cfg.weigh kh.key entry.value
    if hasEnoughCapacity cfg policyWeight s.weightedSize then handleAdmit cfg s kh entry policyWeight
    else if (match cfg.maxCapacity with | some max => decide (policyWeight > max) | none => false) then
      { s with cache := s.cache.erase kh.key }
    else
      let candidate := (EntrySizeAndFrequency.new policyWeight).addFrequency
        (cfg.sketch.frequency s.frequencySketch kh.hash)
      match admitCandidate cfg s.cache s.frequencySketch candidate s.probation with
      | .admitted victimNodes skipped =>
        let (s, skipped) := removeVictims cfg s skipped victimNodes
        moveSkipped (handleAdmit cfg s kh entry policyWeight) skipped
      | .rejected skipped => moveSkipped { s with cache := s.cache.erase kh.key } skipped

/-! ## Replaying the channels -/

/-- One read of `apply_reads` (base_cache.rs:720–726). -/
def applyRead (s : Inner K V σ) : ReadOp V → Inner K V σ
  | .hit hash entry timestamp =>
    (({ s with frequencySketch := cfg.sketch.increment s.frequencySketch hash }).setLastAccessed
      entry timestamp).moveToBackAo entry
  | .miss hash => { s with frequencySketch := cfg.sketch.increment s.frequencySketch hash }

/-- `apply_reads` (base_cache.rs:714–729): the first `count` reads of the channel. -/
def applyReads (s : Inner K V σ) (count : Nat) : Inner K V σ :=
  (s.readOpCh.take count).foldl (applyRead cfg) { s with readOpCh := s.readOpCh.drop count }

/-- One write of `apply_writes` (base_cache.rs:739–742). -/
def applyWrite (ts : Nat) (s : Inner K V σ) : WriteOp K V → Inner K V σ
  | .upsert kh entry => handleUpsert cfg s kh entry ts
  | .remove key entry => handleRemove cfg s key entry

/-- `apply_writes` (base_cache.rs:731–744): the first `count` writes of the channel, at the
time `ts` read once before them. -/
def applyWrites (s : Inner K V σ) (count ts : Nat) : Inner K V σ :=
  (s.writeOpCh.take count).foldl (applyWrite cfg ts) { s with writeOpCh := s.writeOpCh.drop count }

/-! ## The sweepers -/

section Sweep

variable {α : Type} (deq : Inner K V σ → Deque α) (setDeq : Inner K V σ → Deque α → Inner K V σ)
  (nodeKey : α → K) (nodeTs : Inner K V σ → DeqNode α → Option Nat)
  (entryTs : Inner K V σ → ValueEntry V → Option Nat) (isExpired : Option Nat → Bool)
  (remove : Inner K V σ → K → ValueEntry V → Inner K V σ)
  (moveUpdated : Inner K V σ → ValueEntry V → Inner K V σ)

/-- One iteration of the loop shared by `remove_expired_ao` and `remove_expired_wo`
(base_cache.rs:988–1048, 1057–1107), `none` when the loop breaks: break at a node that is
not expired; otherwise remove the key if its current entry is expired too, move an
updated entry's nodes to the back, break at any other entry, and move a node whose key is
gone to the back. -/
def removeExpiredStep (s : Inner K V σ) : Option (Inner K V σ) :=
  match (deq s).peekFront with
  | none => none
  | some node =>
    if !isExpired (nodeTs s node) then none
    else
      let key := nodeKey node.element
      match s.cache.lookup key with
      | some entry =>
        if isExpired (entryTs s entry) then some (remove { s with cache := s.cache.erase key } key entry)
        else if (entryTs s entry).isNone then some (moveUpdated s entry)
        else none
      | none => some (setDeq s ((deq s).moveToBack node.id))

/-- The loop shared by the two sweepers, for at most `batch_size` iterations. -/
def removeExpired : Nat → Inner K V σ → Inner K V σ
  | 0, s => s
  | n + 1, s =>
    match removeExpiredStep deq setDeq nodeKey nodeTs entryTs isExpired remove moveUpdated s with
    | some s' => removeExpired n s'
    | none => s

end Sweep

/-- `remove_expired_ao` (base_cache.rs:985–1050) on the access-order deque of a region. -/
def removeExpiredAo (region : CacheRegion) (batchSize now : Nat) (s : Inner K V σ) :
    Inner K V σ :=
  removeExpired (fun s => s.aoDeque region) (fun s d => s.setAoDeque region d)
    KeyHashDate.key (fun s n => s.nodeLastAccessed n) (fun s e => s.lastAccessed e)
    (fun ts => isExpiredEntryAo cfg.timeToIdle s.validAfter ts now)
    (handleRemoveWithDeques cfg region)
    (fun s e => (s.moveToBackAoInDeque region e).moveToBackWo e) batchSize s

/-- `remove_expired_wo` (base_cache.rs:1052–1109) on the write-order deque. -/
def removeExpiredWo (batchSize now : Nat) (s : Inner K V σ) : Inner K V σ :=
  removeExpired (fun s => s.writeOrder) (fun s d => { s with writeOrder := d })
    KeyDate.key (fun s n => s.nodeLastModified n) (fun s e => s.lastModified e)
    (fun ts => isExpiredEntryWo cfg.timeToLive s.validAfter ts now)
    (handleRemove cfg) (fun s e => (s.moveToBackAo e).moveToBackWo e) batchSize s

/-- `evict` (base_cache.rs:960–983). -/
def evict (s : Inner K V σ) (batchSize now : Nat) : Inner K V σ :=
  let s := if cfg.isWriteOrderQueueEnabled then removeExpiredWo cfg batchSize now s else s
  if cfg.timeToIdle.isSome || s.hasValidAfter then
    let s := removeExpiredAo cfg .window batchSize now s
    let s := removeExpiredAo cfg .mainProbation batchSize now s
    removeExpiredAo cfg .mainProtected batchSize now s
  else s

/-- One iteration of the sweep of `target`, with the clock reading and `valid_after` the
sweep took when it started. -/
def sweepStep (target : SweepTarget) (now validAfter : Nat) (s : Inner K V σ) :
    Option (Inner K V σ) :=
  match target with
  | .writeOrder =>
    removeExpiredStep (fun s => s.writeOrder) (fun s d => { s with writeOrder := d })
      KeyDate.key (fun s n => s.nodeLastModified n) (fun s e => s.lastModified e)
      (fun ts => isExpiredEntryWo cfg.timeToLive validAfter ts now)
      (handleRemove cfg) (fun s e => (s.moveToBackAo e).moveToBackWo e) s
  | .accessOrder region =>
    removeExpiredStep (fun s => s.aoDeque region) (fun s d => s.setAoDeque region d)
      KeyHashDate.key (fun s n => s.nodeLastAccessed n) (fun s e => s.lastAccessed e)
      (fun ts => isExpiredEntryAo cfg.timeToIdle validAfter ts now)
      (handleRemoveWithDeques cfg region)
      (fun s e => (s.moveToBackAoInDeque region e).moveToBackWo e) s

/-! ## Invalidation -/

/-- `process_invalidation_result` (base_cache.rs:1122–1140): take the result, if any, and
remove the entries it invalidated; a finished scan resets the write-order cursor. -/
def processInvalidationResult (s : Inner K V σ) (inv : Invalidator K V (ValueEntry V)) :
    Except HandoffPanic (Inner K V σ × Invalidator K V (ValueEntry V)) :=
  match inv.taskResult with
  | .error p => .error p
  | .ok (none, inv) => .ok (s, inv)
  | .ok (some r, inv) =>
    let s := r.invalidated.foldl (fun s kv => handleRemove cfg s kv.1 kv.2) s
    .ok (if r.isDone then { s with writeOrder := s.writeOrder.resetCursor } else s, inv)

/-- `submit_invalidation_task` (base_cache.rs:1142–1176): prune the registry when the
write-order queue is empty; otherwise collect up to `batch_size` timestamped nodes from
the iterator's position and submit them. `is_truncated` peeks one node further, which
moves the iterator past it. -/
def submitInvalidationTask (s : Inner K V σ) (inv : Invalidator K V (ValueEntry V))
    (batchSize now : Nat) :
    Except HandoffPanic (Inner K V σ × Invalidator K V (ValueEntry V) × Option (InvalidationTask K)) :=
  if s.writeOrder.len = 0 then .ok (s, inv.removePredicatesRegisteredBefore now, none)
  else
    let r := collectCandidates (fun n : DeqNode (KeyDate K) => n.element.key) s.nodeLastModified
      batchSize s.writeOrder.remaining
    let isTruncated := r.1.length == batchSize && !r.2.isEmpty
    let consumed := s.writeOrder.remaining.length - r.2.length + if isTruncated then 1 else 0
    let s := { s with writeOrder := s.writeOrder.advance consumed }
    if r.1.length > 0 then
      match inv.submitTask r.1 isTruncated with
      | .error p => .error p
      | .ok (inv, task) => .ok (s, inv, some task)
    else .ok (s, inv, none)

/-- `invalidate_entries` (base_cache.rs:1111–1120). -/
def invalidateEntries (s : Inner K V σ) (inv : Invalidator K V (ValueEntry V)) (batchSize now : Nat) :
    Except HandoffPanic (Inner K V σ × Option (InvalidationTask K)) :=
  match processInvalidationResult cfg s inv with
  | .error p => .error p
  | .ok (s, inv) =>
    match submitInvalidationTask s inv batchSize now with
    | .error p => .error p
    | .ok (s, inv, task) => .ok ({ s with invalidator := some inv }, task)

/-! ## The cycle -/

/-- One pass of the loop of `sync` (base_cache.rs:651–663), with `should_sync` after it. -/
def syncPass (s : Inner K V σ) (now : Nat) : Inner K V σ × Bool :=
  let rLen := s.readOpCh.length
  let s := if rLen > 0 then applyReads cfg s rLen else s
  let wLen := s.writeOpCh.length
  let s := if wLen > 0 then applyWrites cfg s wLen now else s
  (s, decide (s.readOpCh.length ≥ readLogFlushPoint) || decide (s.writeOpCh.length ≥ writeLogFlushPoint))

/-- The loop of `sync`, with the passes it may still make. -/
def syncLoop (now : Nat) : Nat → Inner K V σ → Bool → Inner K V σ × Bool
  | 0, s, shouldSync => (s, shouldSync)
  | n + 1, s, shouldSync =>
    if shouldSync then
      let r := syncPass cfg s now
      syncLoop now n r.1 r.2
    else (s, shouldSync)

/-- The invalidation phase of `sync` (base_cache.rs:669–684): `invalidate_entries` on an
invalidator that is not empty and has no task running. -/
def invalidationPhase (s : Inner K V σ) (now : Nat) :
    Except HandoffPanic (Inner K V σ × Option (InvalidationTask K)) :=
  if cfg.invalidatorEnabled then
    match s.invalidator with
    | some inv =>
      if !inv.isEmpty && !inv.isTaskRunning then invalidateEntries cfg s inv invalidationBatchSize now
      else .ok (s, none)
    | none => .ok (s, none)
  else .ok (s, none)

/-- `Inner::sync` (base_cache.rs:639–696), with every clock reading at `now` and no client
call in between: the passes, the sweep, the invalidation work with the task it submits,
and the pace. -/
def sync (s : Inner K V σ) (maxRepeats now : Nat) :
    Except HandoffPanic (Inner K V σ × Option (InvalidationTask K) × Option SyncPace) :=
  let (s, shouldSync) := syncLoop cfg now (maxRepeats + 1) s true
  let s := if cfg.hasExpiry || s.hasValidAfter then evict cfg s evictionBatchSize now else s
  match invalidationPhase cfg s now with
  | .error p => .error p
  | .ok (s, task) =>
    let pace :=
      if shouldSync then some .fast
      else if s.writeOpCh.length ≤ writeLogLowWaterMark then some .normal
      else none
    .ok (s, task, pace)

/-! ## The cycle, one step at a time

Clients keep calling `insert`, `get` and `remove` while a cycle runs: the deques mutex
keeps only other cycles out. `cycleStep` makes the cycle's atomic steps, between which a
client can act: taking one op off a channel and handling it, one iteration of a sweep,
and the invalidation phase, with the loop's bookkeeping in between. -/

/-- Where `evict` goes after the sweep of `target` (base_cache.rs:960–983): the
access-order sweeps, window, probation and protected, run when a TTI or `valid_after` is
set; the invalidation phase comes last. -/
def sweepNext (s : Inner K V σ) (now : Nat) : SweepTarget → CyclePc
  | .writeOrder =>
    if cfg.timeToIdle.isSome || s.hasValidAfter then
      .sweep (.accessOrder .window) evictionBatchSize now s.validAfter
    else .invalidate
  | .accessOrder .window => .sweep (.accessOrder .mainProbation) evictionBatchSize now s.validAfter
  | .accessOrder .mainProbation =>
    .sweep (.accessOrder .mainProtected) evictionBatchSize now s.validAfter
  | .accessOrder _ => .invalidate

/-- Where a cycle goes when its loop ends (base_cache.rs:665–667): `evict`, starting with
the write-order sweep when that queue is kept, if expiry applies; the invalidation phase
otherwise. -/
def evictStart (s : Inner K V σ) (now : Nat) : CyclePc :=
  if cfg.hasExpiry || s.hasValidAfter then
    if cfg.isWriteOrderQueueEnabled then .sweep .writeOrder evictionBatchSize now s.validAfter
    else sweepNext cfg s now .writeOrder
  else .invalidate

/-- One step of a cycle at `pc`, at the time `now`: the state, where the cycle is next
(`none` once it is over), and the task the invalidation phase submitted. A channel found
empty ends `apply_reads` or `apply_writes` early (`try_recv` fails). -/
def cycleStep (s : Inner K V σ) (now : Nat) :
    CyclePc → Except HandoffPanic (Inner K V σ × Option CyclePc × Option (InvalidationTask K))
  | .loop calls shouldSync =>
    if shouldSync && decide (calls ≤ maxSyncRepeats) then
      .ok (s, some (.reads calls s.readOpCh.length), none)
    else .ok (s, some (evictStart cfg s now), none)
  | .reads calls 0 => .ok (s, some (.writes calls s.writeOpCh.length now), none)
  | .reads calls (n + 1) =>
    match s.readOpCh with
    | op :: rest => .ok (applyRead cfg { s with readOpCh := rest } op, some (.reads calls n), none)
    | [] => .ok (s, some (.writes calls s.writeOpCh.length now), none)
  | .writes calls 0 _ =>
    .ok (s, some (.loop (calls + 1) (decide (s.readOpCh.length ≥ readLogFlushPoint) ||
      decide (s.writeOpCh.length ≥ writeLogFlushPoint))), none)
  | .writes calls (n + 1) ts =>
    match s.writeOpCh with
    | op :: rest => .ok (applyWrite cfg ts { s with writeOpCh := rest } op, some (.writes calls n ts), none)
    | [] => .ok (s, some (.loop (calls + 1) (decide (s.readOpCh.length ≥ readLogFlushPoint) ||
      decide (s.writeOpCh.length ≥ writeLogFlushPoint))), none)
  | .sweep target 0 sweepNow _ => .ok (s, some (sweepNext cfg s sweepNow target), none)
  | .sweep target (n + 1) sweepNow va =>
    match sweepStep cfg target sweepNow va s with
    | some s' => .ok (s', some (.sweep target n sweepNow va), none)
    | none => .ok (s, some (sweepNext cfg s sweepNow target), none)
  | .invalidate =>
    match invalidationPhase cfg s now with
    | .error p => .error p
    | .ok (s, task) => .ok (s, none, task)

/-! ## Rejection removes by key -/

omit [DecidableEq K] in
theorem moveSkipped_cache (s : Inner K V σ) (skipped : List (DeqNode (KeyHashDate K))) :
    (moveSkipped s skipped).cache = s.cache := by
  induction skipped generalizing s with
  | nil => rfl
  | cons n rest ih => exact (ih _).trans (by dsimp only; split <;> rfl)

/-- When `handle_upsert` does not admit an entry, because it weighs more than the capacity
or because admission rejects it, the key is removed from the map, whichever entry the map
held for it: the entry upserted, or a newer one whose own upsert is still queued. -/
theorem handleUpsert_unadmitted_removes_key (s : Inner K V σ) (kh : KeyHash K)
    (entry : ValueEntry V) (ts : Nat) (hadm : s.isAdmitted entry = false)
    (hcap : hasEnoughCapacity cfg (cfg.weigh kh.key entry.value) s.weightedSize = false)
    (hrej : (∃ max, cfg.maxCapacity = some max ∧ max < cfg.weigh kh.key entry.value) ∨
      ∃ skipped, admitCandidate cfg s.cache s.frequencySketch
        ((EntrySizeAndFrequency.new (cfg.weigh kh.key entry.value)).addFrequency
          (cfg.sketch.frequency s.frequencySketch kh.hash)) s.probation = .rejected skipped) :
    (handleUpsert cfg s kh entry ts).cache.lookup kh.key = none := by
  unfold handleUpsert
  dsimp only
  generalize hs' : (s.setLastAccessed entry ts).setLastModified entry ts = s'
  have hc : s'.cache = s.cache := by rw [← hs']; rfl
  have ha : s'.isAdmitted entry = false := by
    rw [← hs']
    simpa [isAdmitted, setLastModified, setLastAccessed, setInfo, Function.update_apply] using hadm
  have hcap' : hasEnoughCapacity cfg (cfg.weigh kh.key entry.value) s'.weightedSize = false := by
    rw [← hs']; exact hcap
  simp only [ha, hcap', Bool.false_eq_true, if_false]
  split
  · simp [hc, AList.lookup_erase]
  · rcases hrej with ⟨max, hmax, hlt⟩ | ⟨skipped, hsk⟩
    · simp_all
    · rw [show s'.cache = s.cache from hc, show s'.probation = s.probation by rw [← hs']; rfl,
        show s'.frequencySketch = s.frequencySketch by rw [← hs']; rfl, hsk]
      simp [moveSkipped_cache, hc, AList.lookup_erase]

/-- Key 0 holds a newer entry of weight 10 when the upsert of an older one, of weight 20,
is handled in a cache bounded at 10: the key leaves the map. -/
theorem handleUpsert_removes_newer_entry :
    let s : Inner Nat Nat Unit :=
      { Inner.new valueWeighedConfig () with cache := (∅ : AList _).insert 0 ⟨1, 10, 0⟩ }
    s.cache.lookup 0 = some ⟨1, 10, 0⟩ ∧
    (s.isAdmitted ⟨0, 20, 0⟩ = false ∧
      hasEnoughCapacity valueWeighedConfig (valueWeighedConfig.weigh 0 20) s.weightedSize = false ∧
      ((∃ max, valueWeighedConfig.maxCapacity = some max ∧ max < valueWeighedConfig.weigh 0 20) ∨
        ∃ skipped, admitCandidate valueWeighedConfig s.cache s.frequencySketch
          ((EntrySizeAndFrequency.new (valueWeighedConfig.weigh 0 20)).addFrequency
            (valueWeighedConfig.sketch.frequency s.frequencySketch 0)) s.probation =
              .rejected skipped)) ∧
    (handleUpsert valueWeighedConfig s ⟨0, 0⟩ ⟨0, 20, 0⟩ 0).cache.lookup 0 = none :=
  have hadm : (Inner.new valueWeighedConfig () : Inner Nat Nat Unit).isAdmitted ⟨0, 20, 0⟩ = false := rfl
  have hcap : hasEnoughCapacity valueWeighedConfig (valueWeighedConfig.weigh 0 20) 0 = false := by
    decide
  have hrej : ∃ max, valueWeighedConfig.maxCapacity = some max ∧ max < valueWeighedConfig.weigh 0 20 :=
    ⟨10, rfl, by decide⟩
  ⟨rfl, ⟨hadm, hcap, .inl hrej⟩,
    handleUpsert_unadmitted_removes_key valueWeighedConfig _ ⟨0, 0⟩ ⟨0, 20, 0⟩ 0 hadm hcap (.inl hrej)⟩

end Inner

end Moka
