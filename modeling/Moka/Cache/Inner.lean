import Mathlib.Data.List.AList
import Mathlib.Logic.Function.Basic
import Moka.Cache.Deque
import Moka.Invalidator.Task

/-!
# The cache's state

`Inner` (base_cache.rs:431–448) is the state the hot path and the maintenance cycle
share: the segmented hash map from keys to `Arc<ValueEntry>`, the deques, the frequency
sketch, the two op channels, `valid_after` and the invalidator. Its configuration (the
capacity, the weigher, the TTL and TTI, the hasher) never changes and is a separate
record, `Config`.

A deque node lives from its push until it is unlinked: `unlink` drops it, and nothing
else frees a node. Every operation below that follows a pointer to a node first checks
that the node is still linked; if it is not, the pointer dangles, and the source
dereferences freed memory. The state records that as `useAfterFree`, after which the code
has no defined behaviour.

An `Arc<ValueEntry>` is modelled by what never changes after allocation: its identity
(the allocation's index), its value, and the index of the cells it shares. `ValueEntry`
itself (`sync/mod.rs`) is not in the source; its fields follow the spec (§3 "Entry", §4.2):
an entry owns an `admitted` flag and two timestamps, shared with the entry that replaces
it on an update, and two back-pointers to its deque nodes. The shared cells live in
`infos`, the back-pointers in `qNodes`, both indexed like the heap.

The frequency sketch is out of scope (spec §1); the model takes it as a state `σ` with
its `increment` and `frequency` contract.
-/

namespace Moka

/-- The user's weigher, `Weighter<K, V>`: a `u64` per key and value. -/
structure Weighter (K V : Type) where
  weigh : K → V → Nat
  weigh_lt : ∀ k v, weigh k v < 2 ^ 64

/-- Modelled from the spec: the frequency sketch's contract (§1, §3 "Frequency
sketch"): `increment(hash)`, and `frequency(hash)`, a `u8`. -/
structure FrequencySketch (σ : Type) where
  increment : σ → Nat → σ
  frequency : σ → Nat → Nat
  frequency_lt : ∀ s h, frequency s h < 256

/-- The configuration fields of `Inner` (base_cache.rs:431–448) and its hasher. -/
structure Config (K V σ : Type) where
  maxCapacity : Option Nat
  weighter : Option (Weighter K V)
  timeToLive : Option Nat
  timeToIdle : Option Nat
  invalidatorEnabled : Bool
  hasher : K → Nat
  sketch : FrequencySketch σ

/-- An `Arc<ValueEntry>`: its allocation, its value, and the cells it shares. -/
structure ValueEntry (V : Type) where
  id : Nat
  value : V
  info : Nat
  deriving DecidableEq, Repr

/-- Modelled from the spec: the `Arc`-shared atomics of an entry (§3 "Entry"): the
`admitted` flag and the two timestamps, as `u64` ticks with `u64::MAX` for "unset". -/
structure EntryInfo where
  isAdmitted : Bool
  lastAccessed : Nat
  lastModified : Nat

/-- Modelled from the spec: an entry's pointers to its deque nodes (§3, §9), the
access-order one with the region of its deque. -/
structure DeqNodes where
  accessOrderQNode : Option (CacheRegion × Nat)
  writeOrderQNode : Option Nat

/-- A key with its hash, `KeyHash`. -/
structure KeyHash (K : Type) where
  key : K
  hash : Nat
  deriving DecidableEq, Repr

/-- The element of an access-order node, `KeyHashDate`: the key, its hash, and the
entry's `last_accessed` cell. -/
structure KeyHashDate (K : Type) where
  key : K
  hash : Nat
  info : Nat
  deriving DecidableEq, Repr

/-- The element of a write-order node, `KeyDate`: the key and the entry's `last_modified`
cell. -/
structure KeyDate (K : Type) where
  key : K
  info : Nat
  deriving DecidableEq, Repr

/-- A deferred read, `ReadOp`. -/
inductive ReadOp (V : Type)
  | hit (hash : Nat) (entry : ValueEntry V) (timestamp : Nat)
  | miss (hash : Nat)

/-- A deferred write, `WriteOp`: an upsert, or a removal with the key and entry removed
(`KVEntry`). -/
inductive WriteOp (K V : Type)
  | upsert (kh : KeyHash K) (entry : ValueEntry V)
  | remove (key : K) (entry : ValueEntry V)
  deriving DecidableEq

/-- The mutable state of `Inner`, with the heap of shared cells and node pointers. -/
structure Inner (K V σ : Type) where
  weightedSize : Nat
  cache : AList (fun _ : K => ValueEntry V)
  infos : Nat → EntryInfo
  qNodes : Nat → DeqNodes
  nextId : Nat
  window : Deque (KeyHashDate K)
  probation : Deque (KeyHashDate K)
  protectedDeque : Deque (KeyHashDate K)
  writeOrder : Deque (KeyDate K)
  frequencySketch : σ
  readOpCh : List (ReadOp V)
  writeOpCh : List (WriteOp K V)
  validAfter : Nat
  invalidator : Option (Invalidator K V (ValueEntry V))
  /-- Ghost: a node that an unlink had dropped was dereferenced. -/
  useAfterFree : Bool

/-- A timestamp cell read as `Option<Instant>`: `u64::MAX` is unset. -/
def timestampOf (raw : Nat) : Option Nat := if raw = u64Max then none else some raw

namespace Config

variable {K V σ : Type} (cfg : Config K V σ)

/-- The weight of an entry, `WeightedSize::weigh` (base_cache.rs:358–361): the weigher's,
or 1. -/
def weigh (key : K) (value : V) : Nat :=
  match cfg.weighter with
  | some w => w.weigh key value
  | none => 1

/-- Whether a TTL or a TTI is set, `has_expiry` (base_cache.rs:552–555). -/
def hasExpiry : Bool := cfg.timeToLive.isSome || cfg.timeToIdle.isSome

/-- Whether the write-order queue is kept, `is_write_order_queue_enabled`
(base_cache.rs:557–560). -/
def isWriteOrderQueueEnabled : Bool := cfg.timeToLive.isSome || cfg.invalidatorEnabled

theorem weigh_lt (key : K) (value : V) : cfg.weigh key value < 2 ^ 64 := by
  unfold weigh
  split
  · exact Weighter.weigh_lt _ _ _
  · decide

end Config

namespace Inner

variable {K V σ : Type}

/-- A fresh `Inner` (base_cache.rs:459–501), with the invalidator that
`BaseCache::new` installs when it is enabled (base_cache.rs:108–110). -/
def new (cfg : Config K V σ) (sketch : σ) : Inner K V σ where
  weightedSize := 0
  cache := ∅
  infos := fun _ => ⟨false, u64Max, u64Max⟩
  qNodes := fun _ => ⟨none, none⟩
  nextId := 0
  window := Deque.new
  probation := Deque.new
  protectedDeque := Deque.new
  writeOrder := Deque.new
  frequencySketch := sketch
  readOpCh := []
  writeOpCh := []
  validAfter := 0
  invalidator := if cfg.invalidatorEnabled then some Invalidator.new else none
  useAfterFree := false

variable (s : Inner K V σ)

/-! ## Entries -/

/-- The entry's `is_admitted()`. -/
def isAdmitted (e : ValueEntry V) : Bool := (s.infos e.info).isAdmitted

/-- The entry's `last_accessed()`. -/
def lastAccessed (e : ValueEntry V) : Option Nat := timestampOf (s.infos e.info).lastAccessed

/-- The entry's `last_modified()`. -/
def lastModified (e : ValueEntry V) : Option Nat := timestampOf (s.infos e.info).lastModified

/-- Update the shared cells of an entry. -/
def setInfo (i : Nat) (f : EntryInfo → EntryInfo) : Inner K V σ :=
  { s with infos := Function.update s.infos i (f (s.infos i)) }

/-- Update the node pointers of an entry. -/
def setQNodes (e : ValueEntry V) (f : DeqNodes → DeqNodes) : Inner K V σ :=
  { s with qNodes := Function.update s.qNodes e.id (f (s.qNodes e.id)) }

/-- The entry's `set_is_admitted()`. -/
def setIsAdmitted (e : ValueEntry V) (b : Bool) : Inner K V σ :=
  s.setInfo e.info fun i => { i with isAdmitted := b }

/-- The entry's `set_last_accessed()`. -/
def setLastAccessed (e : ValueEntry V) (ts : Nat) : Inner K V σ :=
  s.setInfo e.info fun i => { i with lastAccessed := ts }

/-- The entry's `set_last_modified()`. -/
def setLastModified (e : ValueEntry V) (ts : Nat) : Inner K V σ :=
  s.setInfo e.info fun i => { i with lastModified := ts }

/-- The entry's `unset_q_nodes()`: forget both node pointers. -/
def unsetQNodes (e : ValueEntry V) : Inner K V σ :=
  s.setQNodes e fun _ => ⟨none, none⟩

/-- Modelled from the spec: `ValueEntry::new` (§4.2 "on_insert: build a fresh entry"): a
new allocation with cells of its own, not admitted, timestamps unset, no nodes. -/
def newEntry (value : V) : ValueEntry V × Inner K V σ :=
  let e : ValueEntry V := ⟨s.nextId, value, s.nextId⟩
  (e, { s.setInfo s.nextId (fun _ => ⟨false, u64Max, u64Max⟩) with nextId := s.nextId + 1 })

/-- Modelled from the spec: `ValueEntry::new_with` (§4.2 "on_modify: build a fresh
entry whose timestamps are set to the sentinel max"; §4.3 "If entry was already admitted
(update path)"): a new allocation that shares the old entry's cells, so it is admitted
when the old one is, stores the sentinel into both shared timestamps, and copies the old
entry's node pointers. -/
def newEntryWith (value : V) (other : ValueEntry V) : ValueEntry V × Inner K V σ :=
  let e : ValueEntry V := ⟨s.nextId, value, other.info⟩
  let s := s.setInfo other.info fun i => { i with lastAccessed := u64Max, lastModified := u64Max }
  (e, { s.setQNodes e (fun _ => s.qNodes other.id) with nextId := s.nextId + 1 })

@[simp] theorem setInfo_cache (i : Nat) (f : EntryInfo → EntryInfo) :
    (s.setInfo i f).cache = s.cache := rfl

@[simp] theorem setInfo_nextId (i : Nat) (f : EntryInfo → EntryInfo) :
    (s.setInfo i f).nextId = s.nextId := rfl

@[simp] theorem setQNodes_cache (e : ValueEntry V) (f : DeqNodes → DeqNodes) :
    (s.setQNodes e f).cache = s.cache := rfl

@[simp] theorem setQNodes_nextId (e : ValueEntry V) (f : DeqNodes → DeqNodes) :
    (s.setQNodes e f).nextId = s.nextId := rfl

@[simp] theorem unsetQNodes_cache (e : ValueEntry V) : (s.unsetQNodes e).cache = s.cache := rfl

@[simp] theorem newEntry_fst (value : V) : (s.newEntry value).1 = ⟨s.nextId, value, s.nextId⟩ :=
  rfl

@[simp] theorem newEntry_nextId (value : V) : (s.newEntry value).2.nextId = s.nextId + 1 := rfl

@[simp] theorem newEntryWith_fst (value : V) (other : ValueEntry V) :
    (s.newEntryWith value other).1 = ⟨s.nextId, value, other.info⟩ := rfl

@[simp] theorem newEntryWith_nextId (value : V) (other : ValueEntry V) :
    (s.newEntryWith value other).2.nextId = s.nextId + 1 := rfl

/-! ## Deques -/

/-- The access-order deque of a region. -/
def aoDeque : CacheRegion → Deque (KeyHashDate K)
  | .window => s.window
  | .mainProbation => s.probation
  | .mainProtected => s.protectedDeque
  | .writeOrder => Deque.new

/-- Replace the access-order deque of a region. -/
def setAoDeque : CacheRegion → Deque (KeyHashDate K) → Inner K V σ
  | .window, d => { s with window := d }
  | .mainProbation, d => { s with probation := d }
  | .mainProtected, d => { s with protectedDeque := d }
  | .writeOrder, _ => s

/-- The timestamp an access-order node carries, its entry's `last_accessed`. -/
def nodeLastAccessed (n : DeqNode (KeyHashDate K)) : Option Nat :=
  timestampOf (s.infos n.element.info).lastAccessed

/-- The timestamp a write-order node carries, its entry's `last_modified`. -/
def nodeLastModified (n : DeqNode (KeyDate K)) : Option Nat :=
  timestampOf (s.infos n.element.info).lastModified

/-- Modelled from the spec: `push_back_ao` (§4.4 "pushes a new node onto probation's
MRU"): a new node at the back of the region's deque, and the entry points at it. -/
def pushBackAo (region : CacheRegion) (khd : KeyHashDate K) (e : ValueEntry V) :
    Inner K V σ :=
  let s' := s.setAoDeque region ((s.aoDeque region).pushBack ⟨s.nextId, region, khd⟩)
  { s'.setQNodes e (fun q => { q with accessOrderQNode := some (region, s.nextId) }) with
    nextId := s.nextId + 1 }

/-- Modelled from the spec: `push_back_wo` (§4.4 "pushes another onto the write-order
deque"). -/
def pushBackWo (kd : KeyDate K) (e : ValueEntry V) : Inner K V σ :=
  let s' := { s with writeOrder := s.writeOrder.pushBack ⟨s.nextId, .writeOrder, kd⟩ }
  { s'.setQNodes e (fun q => { q with writeOrderQNode := some s.nextId }) with
    nextId := s.nextId + 1 }

/-- A dereference of a node that was unlinked, and so dropped: undefined behaviour,
recorded. -/
def derefDropped : Inner K V σ := { s with useAfterFree := true }

/-- Modelled from the spec: `move_to_back_ao` (§4.3 "move the entry's access-order node to
the MRU end of its current deque"). -/
def moveToBackAo (e : ValueEntry V) : Inner K V σ :=
  match (s.qNodes e.id).accessOrderQNode with
  | some (region, n) =>
    if (s.aoDeque region).contains n then s.setAoDeque region ((s.aoDeque region).moveToBack n)
    else s.derefDropped
  | none => s

/-- The same, within one given access-order deque, `move_to_back_ao_in_deque`. -/
def moveToBackAoInDeque (region : CacheRegion) (e : ValueEntry V) : Inner K V σ :=
  match (s.qNodes e.id).accessOrderQNode with
  | some (_, n) =>
    if (s.aoDeque region).contains n then s.setAoDeque region ((s.aoDeque region).moveToBack n)
    else s.derefDropped
  | none => s

/-- Modelled from the spec: `move_to_back_wo` (§4.3). -/
def moveToBackWo (e : ValueEntry V) : Inner K V σ :=
  match (s.qNodes e.id).writeOrderQNode with
  | some n =>
    if s.writeOrder.contains n then { s with writeOrder := s.writeOrder.moveToBack n }
    else s.derefDropped
  | none => s

/-- Modelled from the spec: `unlink_ao` (§4.3 "unlink nodes"): take the entry's
access-order pointer and unlink that node from its region's deque. -/
def unlinkAo (e : ValueEntry V) : Inner K V σ :=
  match (s.qNodes e.id).accessOrderQNode with
  | some (region, n) =>
    if (s.aoDeque region).contains n then
      (s.setAoDeque region ((s.aoDeque region).unlink n)).setQNodes e
        fun q => { q with accessOrderQNode := none }
    else s.derefDropped
  | none => s

/-- The same, from one given access-order deque, `unlink_ao_from_deque`. -/
def unlinkAoFromDeque (region : CacheRegion) (e : ValueEntry V) : Inner K V σ :=
  match (s.qNodes e.id).accessOrderQNode with
  | some (_, n) =>
    if (s.aoDeque region).contains n then
      (s.setAoDeque region ((s.aoDeque region).unlink n)).setQNodes e
        fun q => { q with accessOrderQNode := none }
    else s.derefDropped
  | none => s

/-- Modelled from the spec: `unlink_wo` (§4.3). -/
def unlinkWo (e : ValueEntry V) : Inner K V σ :=
  match (s.qNodes e.id).writeOrderQNode with
  | some n =>
    if s.writeOrder.contains n then
      { s with writeOrder := s.writeOrder.unlink n }.setQNodes e
        fun q => { q with writeOrderQNode := none }
    else s.derefDropped
  | none => s

/-! ## The hash map as the scan task sees it -/

variable [DecidableEq K]

/-- The cache as `GetOrRemoveEntry` (base_cache.rs:616–631): `get` and `remove_if` on the
hash map, and the entries' `last_modified()`. -/
def getOrRemoveEntry : GetOrRemoveEntry (Inner K V σ) K V (ValueEntry V) where
  getValueEntry s key := s.cache.lookup key
  removeKeyValueIf s key cond :=
    match s.cache.lookup key with
    | some e => if cond e then (some e, { s with cache := s.cache.erase key }) else (none, s)
    | none => (none, s)
  lastModified s e := s.lastModified e
  value e := e.value

end Inner

end Moka
