import Mathlib.Data.List.Nodup
import Moka.Common

/-!
# Access-order and write-order deques

The cache orders its entries in four intrusive doubly linked lists: the window, probation
and protected access-order queues, and the write-order queue. The deque type itself
(`common/deque.rs`) is not in the source; base_cache.rs uses `push_back`, `move_to_back`,
`unlink`, `peek_front`, `len`, the iterator over the write-order queue and its
`reset_cursor`. The spec (§9) asks for an arena-indexed model: a node has a stable index,
and entries hold node indices. Here a deque is the list of its nodes, front (LRU) first,
with the uniqueness of node indices carried as a field, and the iterator's cursor.
-/

namespace Moka

/-- The region a node was pushed to (`CacheRegion`). -/
inductive CacheRegion
  | window
  | mainProbation
  | mainProtected
  | writeOrder
  deriving DecidableEq, Repr

/-- A node of a deque: its arena index, its region, and its element. -/
structure DeqNode (α : Type) where
  id : Nat
  region : CacheRegion
  element : α
  deriving DecidableEq, Repr

/-- The position of the iterator: at a node, or past the end. -/
inductive DeqCursor
  | node (id : Nat)
  | done
  deriving DecidableEq, Repr

/-- Modelled from the spec: a deque (§3 "Deques", §9 "Intrusive deque with pointers back
into entries"), its nodes front first, each index once, and the cursor of its iterator
(`None` until the first `next()`, reset by `reset_cursor`). -/
structure Deque (α : Type) where
  nodes : List (DeqNode α)
  cursor : Option DeqCursor
  nodup : (nodes.map DeqNode.id).Nodup

namespace Deque

variable {α : Type}

theorem nodup_filter_ne {l : List (DeqNode α)} (h : (l.map DeqNode.id).Nodup) (id : Nat) :
    ((l.filter fun n => decide (n.id ≠ id)).map DeqNode.id).Nodup :=
  h.sublist ((List.filter_sublist l).map _)

theorem nodup_filter_ne_append {l : List (DeqNode α)} (h : (l.map DeqNode.id).Nodup)
    (n : DeqNode α) :
    (((l.filter fun m => decide (m.id ≠ n.id)) ++ [n]).map DeqNode.id).Nodup := by
  rw [List.map_append, List.nodup_append]
  refine ⟨nodup_filter_ne h n.id, List.nodup_singleton _, ?_⟩
  simp [List.disjoint_singleton]

/-- An empty deque. -/
def new : Deque α := ⟨[], none, List.nodup_nil⟩

/-- The number of nodes, `len()`. -/
def len (d : Deque α) : Nat := d.nodes.length

/-- The front (LRU) node, `peek_front()`. -/
def peekFront (d : Deque α) : Option (DeqNode α) := d.nodes.head?

/-- Whether the node is linked in this deque, `contains()`. -/
def contains (d : Deque α) (id : Nat) : Bool := d.nodes.any fun n => n.id == id

/-- The cursor after the iterator moves past node `id`: the next node, or the end. -/
def cursorAfter (nodes : List (DeqNode α)) (id : Nat) : DeqCursor :=
  match ((nodes.dropWhile fun n => decide (n.id ≠ id)).drop 1).head? with
  | some n => .node n.id
  | none => .done

/-- A node that leaves its place moves the cursor on if the cursor was at it. -/
def cursorPast (d : Deque α) (id : Nat) : Option DeqCursor :=
  if d.cursor = some (.node id) then some (cursorAfter d.nodes id) else d.cursor

/-- Append a node at the back (MRU), `push_back()`. -/
def pushBack (d : Deque α) (n : DeqNode α) : Deque α :=
  ⟨(d.nodes.filter fun m => decide (m.id ≠ n.id)) ++ [n], d.cursor,
    nodup_filter_ne_append d.nodup n⟩

/-- Remove a node, `unlink()`. -/
def unlink (d : Deque α) (id : Nat) : Deque α :=
  ⟨d.nodes.filter fun m => decide (m.id ≠ id), d.cursorPast id, nodup_filter_ne d.nodup id⟩

/-- Move a linked node to the back, `move_to_back()`. The cache checks that a node is
linked before it moves it; on an id that is not linked the function changes nothing. -/
def moveToBack (d : Deque α) (id : Nat) : Deque α :=
  match d.nodes.find? fun m => m.id == id with
  | some n =>
    ⟨(d.nodes.filter fun m => decide (m.id ≠ n.id)) ++ [n], d.cursorPast id,
      nodup_filter_ne_append d.nodup n⟩
  | none => d

/-- Restart the iterator at the front, `reset_cursor()`. -/
def resetCursor (d : Deque α) : Deque α := { d with cursor := none }

/-- The nodes the iterator still yields. -/
def remaining (d : Deque α) : List (DeqNode α) :=
  match d.cursor with
  | none => d.nodes
  | some (.node id) => d.nodes.dropWhile fun n => decide (n.id ≠ id)
  | some .done => []

/-- The cursor after the iterator has yielded `k` more nodes. -/
def advance (d : Deque α) (k : Nat) : Deque α :=
  { d with
    cursor :=
      match (d.remaining.drop k).head? with
      | some n => some (.node n.id)
      | none => some .done }

@[simp] theorem pushBack_nodes (d : Deque α) (n : DeqNode α) :
    (d.pushBack n).nodes = (d.nodes.filter fun m => decide (m.id ≠ n.id)) ++ [n] := rfl

@[simp] theorem unlink_nodes (d : Deque α) (id : Nat) :
    (d.unlink id).nodes = d.nodes.filter fun m => decide (m.id ≠ id) := rfl

@[simp] theorem resetCursor_nodes (d : Deque α) : d.resetCursor.nodes = d.nodes := rfl

@[simp] theorem advance_nodes (d : Deque α) (k : Nat) : (d.advance k).nodes = d.nodes := rfl

theorem mem_pushBack {d : Deque α} {n m : DeqNode α} :
    m ∈ (d.pushBack n).nodes ↔ (m ∈ d.nodes ∧ m.id ≠ n.id) ∨ m = n := by
  simp [pushBack_nodes]

/-- Moving a node to the back keeps every node of the deque, and adds none. -/
theorem mem_moveToBack {d : Deque α} {id : Nat} {n : DeqNode α} :
    n ∈ (d.moveToBack id).nodes ↔ n ∈ d.nodes := by
  unfold moveToBack
  split
  · rename_i m hm
    have hmem : m ∈ d.nodes := List.mem_of_find?_eq_some hm
    simp only [List.mem_append, List.mem_filter, List.mem_singleton, decide_eq_true_eq]
    constructor
    · rintro (⟨hn, -⟩ | rfl)
      · exact hn
      · exact hmem
    · intro hn
      by_cases hid : n.id = m.id
      · exact .inr (List.inj_on_of_nodup_map d.nodup hn hmem hid)
      · exact .inl ⟨hn, hid⟩
  · exact Iff.rfl

theorem contains_iff {d : Deque α} {id : Nat} : d.contains id = true ↔ ∃ n ∈ d.nodes, n.id = id := by
  simp [contains]

/-- A pushed node is linked, and so is every node that was. -/
theorem contains_pushBack {d : Deque α} {n : DeqNode α} {id : Nat} :
    (d.pushBack n).contains id = true ↔ d.contains id = true ∨ id = n.id := by
  simp only [contains_iff, mem_pushBack]
  constructor
  · rintro ⟨m, ⟨hm, -⟩ | rfl, rfl⟩
    · exact .inl ⟨m, hm, rfl⟩
    · exact .inr rfl
  · rintro (⟨m, hm, rfl⟩ | rfl)
    · by_cases h : m.id = n.id
      · exact ⟨n, .inr rfl, h.symm⟩
      · exact ⟨m, .inl ⟨hm, h⟩, rfl⟩
    · exact ⟨n, .inr rfl, rfl⟩

theorem contains_unlink {d : Deque α} {id nid : Nat} :
    (d.unlink id).contains nid = true ↔ d.contains nid = true ∧ nid ≠ id := by
  simp only [contains_iff, unlink_nodes, List.mem_filter, decide_eq_true_eq]
  constructor
  · rintro ⟨m, ⟨hm, hne⟩, rfl⟩
    exact ⟨⟨m, hm, rfl⟩, hne⟩
  · rintro ⟨⟨m, hm, rfl⟩, hne⟩
    exact ⟨m, ⟨hm, hne⟩, rfl⟩

@[simp] theorem contains_moveToBack {d : Deque α} {id nid : Nat} :
    (d.moveToBack id).contains nid = d.contains nid :=
  Bool.eq_iff_iff.2 (by simp only [contains_iff, mem_moveToBack])

theorem moveToBack_nodes_nil {d : Deque α} (h : d.nodes = []) (id : Nat) : (d.moveToBack id).nodes = [] := by
  simp [moveToBack, h]

theorem unlink_nodes_nil {d : Deque α} (h : d.nodes = []) (id : Nat) : (d.unlink id).nodes = [] := by
  simp [h]

end Deque

end Moka
