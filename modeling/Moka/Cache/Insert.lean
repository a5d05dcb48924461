import Mathlib.Data.List.Basic
import Moka.Cache.Admit

/-!
# The write path's closures

`BaseCache::do_insert_with_hash` (base_cache.rs:236–294) hands two closures to
`SegmentedHashMap::insert_with_or_modify`: `on_insert`, which builds a fresh entry, and
`on_modify`, which builds an entry sharing the old one's cells. Under contention the map
retries, so either closure may run several times, and only the entry the last call
returned stays in the map. Each call stamps its `WriteOp` with a serial number from a
shared `AtomicU8`; the function returns the `WriteOp` with the larger number, and on an
update unsets the old entry's deque-node pointers.

The map itself (`cht/segment.rs`) is not in the source; following the spec (§4.2), it is
modelled by the list of closure calls it makes, in order.

## Main results

- `InsertInv.run`: after `n ≤ 256` calls the counter is `n` modulo 256 and both stamped
  serial numbers are below `n`.
- **`doInsertWithHash_last_call_wins`**: with at most 256 calls, the returned `WriteOp`
  carries the entry of the last call, which the map holds, and the old entry's pointers
  are unset exactly when that call was an `on_modify`.
- **`doInsertWithHash_after_wrap`**: after 256 `on_modify` calls and one `on_insert`, the
  counter has wrapped, and the `WriteOp` of the last `on_modify` is returned while the map
  holds the inserted entry.
-/

namespace Moka

/-- One call of a closure by `insert_with_or_modify`: `on_insert`, or `on_modify` with
the entry it found. -/
inductive Invocation (V : Type)
  | onInsert
  | onModify (oldEntry : ValueEntry V)
  deriving DecidableEq, Repr

/-- The locals of `do_insert_with_hash` the closures write: the shared counter behind
`op_cnt1` and `op_cnt2`, and `op1` and `op2`. -/
structure InsertLocals (K V : Type) where
  opCnt : Nat
  op1 : Option (Nat × WriteOp K V)
  op2 : Option (Nat × ValueEntry V × WriteOp K V)

/-- The locals before the map calls a closure (base_cache.rs:237–240). -/
def InsertLocals.init {K V : Type} : InsertLocals K V := ⟨0, none, none⟩

namespace Inner

variable {K V σ : Type} (key : K) (hash : Nat) (value : V)

/-- `on_insert` (base_cache.rs:252–260): a fresh entry, stamped with the counter, which
`fetch_add` on an `AtomicU8` moves on modulo 256. -/
def onInsert (s : Inner K V σ) (l : InsertLocals K V) :
    ValueEntry V × Inner K V σ × InsertLocals K V :=
  let (entry, s) := s.newEntry value
  (entry, s, { l with opCnt := (l.opCnt + 1) % 256, op1 := some (l.opCnt, .upsert ⟨key, hash⟩ entry) })

/-- `on_modify` (base_cache.rs:262–274): an entry built with `ValueEntry::new_with` from
the old one, stamped with the same counter. -/
def onModify (oldEntry : ValueEntry V) (s : Inner K V σ) (l : InsertLocals K V) :
    ValueEntry V × Inner K V σ × InsertLocals K V :=
  let (entry, s) := s.newEntryWith value oldEntry
  (entry, s, { l with
    opCnt := (l.opCnt + 1) % 256, op2 := some (l.opCnt, oldEntry, .upsert ⟨key, hash⟩ entry) })

/-- One call of a closure, on the state and locals, with the entry it returns. -/
def callClosure (st : Inner K V σ × InsertLocals K V) :
    Invocation V → ValueEntry V × Inner K V σ × InsertLocals K V
  | .onInsert => onInsert key hash value st.1 st.2
  | .onModify old => onModify key hash value old st.1 st.2

/-- The closure calls one after another, with the entry the last one returned. -/
def runClosures (st : Inner K V σ × InsertLocals K V × Option (ValueEntry V))
    (calls : List (Invocation V)) : Inner K V σ × InsertLocals K V × Option (ValueEntry V) :=
  calls.foldl (fun st c =>
    let (entry, s, l) := callClosure key hash value (st.1, st.2.1) c
    (s, l, some entry)) st

variable [DecidableEq K]

/-- Modelled from the spec: `SegmentedHashMap::insert_with_or_modify` (§4.2 "may invoke
closures multiple times"): it makes the given closure calls in order and leaves the entry
the last call returned under the key. -/
def insertWithOrModify (s : Inner K V σ) (calls : List (Invocation V)) :
    Inner K V σ × InsertLocals K V :=
  let (s, l, last) := runClosures key hash value (s, .init, none) calls
  match last with
  | some entry => ({ s with cache := s.cache.insert key entry }, l)
  | none => (s, l)

omit [DecidableEq K] in
/-- The end of `do_insert_with_hash` (base_cache.rs:276–293), once the map has stored an
entry: the `WriteOp` with the larger serial number, after unsetting the old entry's node
pointers on an update. `None` is the `unreachable!()` of no call at all. -/
def pickWriteOp (s : Inner K V σ) (l : InsertLocals K V) : Option (WriteOp K V × Inner K V σ) :=
  match l.op1, l.op2 with
  | some (_, insOp), none => some (insOp, s)
  | none, some (_, oldEntry, updOp) => some (updOp, s.unsetQNodes oldEntry)
  | some (cnt1, insOp), some (cnt2, oldEntry, updOp) =>
    if cnt1 > cnt2 then some (insOp, s) else some (updOp, s.unsetQNodes oldEntry)
  | none, none => none

/-- `do_insert_with_hash` (base_cache.rs:236–294). -/
def doInsertWithHash (s : Inner K V σ) (calls : List (Invocation V)) :
    Option (WriteOp K V × Inner K V σ) :=
  let (s, l) := insertWithOrModify key hash value s calls
  pickWriteOp s l

omit [DecidableEq K]

/-! ## The serial numbers -/

/-- After `n` calls, the counter holds `n` modulo 256 and each stamped number is below
`n`. -/
structure InsertInv (l : InsertLocals K V) (n : Nat) : Prop where
  opCnt_eq : l.opCnt = n % 256
  op1_lt : ∀ c u, l.op1 = some (c, u) → c < n
  op2_lt : ∀ c o u, l.op2 = some (c, o, u) → c < n

theorem runClosures_snoc (st : Inner K V σ × InsertLocals K V × Option (ValueEntry V))
    (calls : List (Invocation V)) (c : Invocation V) :
    runClosures key hash value st (calls ++ [c]) =
      let r := runClosures key hash value st calls
      let (entry, s, l) := callClosure key hash value (r.1, r.2.1) c
      (s, l, some entry) := by
  simp [runClosures]

/-- One closure call below 256 stamps the count so far, and keeps the invariant. -/
theorem InsertInv.call {l : InsertLocals K V} {n : Nat} (inv : InsertInv l n) (hn : n < 256)
    (s : Inner K V σ) (c : Invocation V) :
    InsertInv (callClosure key hash value (s, l) c).2.2 (n + 1) := by
  have hcnt : l.opCnt = n := inv.opCnt_eq.trans (Nat.mod_eq_of_lt hn)
  cases c <;> refine ⟨by simp [callClosure, onInsert, onModify, hcnt], ?_, ?_⟩ <;>
    simp only [callClosure, onInsert, onModify, Option.some.injEq, Prod.mk.injEq]
  · rintro _ _ ⟨rfl, -⟩
    omega
  · exact fun c o u h => Nat.lt_succ_of_lt (inv.op2_lt c o u h)
  · exact fun c u h => Nat.lt_succ_of_lt (inv.op1_lt c u h)
  · rintro _ _ _ ⟨rfl, -⟩
    omega

/-- The invariant over up to 256 calls. -/
theorem InsertInv.run (s : Inner K V σ) (calls : List (Invocation V)) (hlen : calls.length ≤ 256) :
    InsertInv (runClosures key hash value (s, .init, none) calls).2.1 calls.length := by
  induction calls using List.reverseRecOn with
  | nil => exact ⟨rfl, fun _ _ h => (nomatch h), fun _ _ _ h => (nomatch h)⟩
  | append_singleton calls c ih =>
    rw [runClosures_snoc, List.length_append, List.length_singleton]
    simp only [List.length_append, List.length_singleton] at hlen
    exact (ih (by omega)).call key hash value (by omega) _ c

/-- With at most 256 closure calls, `do_insert_with_hash` returns the `WriteOp` of the
last call, whose entry the map keeps, and unsets the node pointers of the old entry that
call was given when it was an `on_modify`, and of no entry when it was an `on_insert`. -/
theorem doInsertWithHash_last_call_wins [DecidableEq K] (s : Inner K V σ) (pre : List (Invocation V))
    (c : Invocation V) (hlen : pre.length < 256) :
    let before := runClosures key hash value (s, .init, none) pre
    let last := callClosure key hash value (before.1, before.2.1) c
    let s₁ := { last.2.1 with cache := last.2.1.cache.insert key last.1 }
    doInsertWithHash key hash value s (pre ++ [c]) =
      some (.upsert ⟨key, hash⟩ last.1, match c with
        | .onInsert => s₁
        | .onModify old => s₁.unsetQNodes old) := by
  have inv := InsertInv.run key hash value s pre hlen.le
  have hcnt : (runClosures key hash value (s, .init, none) pre).2.1.opCnt = pre.length :=
    inv.opCnt_eq.trans (Nat.mod_eq_of_lt hlen)
  simp only [doInsertWithHash, insertWithOrModify, pickWriteOp, runClosures_snoc]
  generalize runClosures key hash value (s, .init, none) pre = r at inv hcnt
  obtain ⟨s₀, ⟨_, op1, op2⟩, _⟩ := r
  dsimp only at inv hcnt
  cases c with
  | onInsert =>
    rcases op2 with _ | ⟨c2, o, u⟩
    · rfl
    · simp [callClosure, onInsert, hcnt, inv.op2_lt c2 o u rfl]
  | onModify old =>
    rcases op1 with _ | ⟨c1, u⟩
    · rfl
    · simp [callClosure, onModify, hcnt, Nat.not_lt.mpr (inv.op1_lt c1 u rfl).le]

/-- An insert whose first closure call lost a race to another thread's insert and whose
retry found that thread's entry: the update wins. -/
theorem doInsertWithHash_update_after_retry :
    [(Invocation.onInsert : Invocation Nat)].length < 256 ∧
    let s := Inner.new valueWeighedConfig ()
    let before := runClosures (0 : Nat) 0 (7 : Nat) (s, .init, none) [.onInsert]
    let last := callClosure (0 : Nat) 0 (7 : Nat) (before.1, before.2.1) (.onModify ⟨0, 7, 0⟩)
    let s₁ := { last.2.1 with cache := last.2.1.cache.insert 0 last.1 }
    doInsertWithHash 0 0 7 s ([.onInsert] ++ [.onModify ⟨0, 7, 0⟩]) =
      some (.upsert ⟨0, 0⟩ last.1, s₁.unsetQNodes ⟨0, 7, 0⟩) :=
  ⟨by decide, doInsertWithHash_last_call_wins 0 0 7 _ [.onInsert] (.onModify ⟨0, 7, 0⟩) (by decide)⟩

/-! ## A counter that wraps -/

/-- Calls of `on_modify` alone: the `(k + 1)`-th is stamped `k` modulo 256 and its entry
is the latest allocation. -/
theorem runClosures_onModify (s : Inner K V σ) (old : ValueEntry V) (k : Nat) :
    let r := runClosures key hash value (s, .init, none) (List.replicate (k + 1) (.onModify old))
    r.1.nextId = s.nextId + k + 1 ∧
    r.2.1 = ⟨(k + 1) % 256, none,
      some (k % 256, old, .upsert ⟨key, hash⟩ ⟨s.nextId + k, value, old.info⟩)⟩ := by
  induction k with
  | zero => exact ⟨rfl, rfl⟩
  | succ k ih =>
    obtain ⟨hid, hl⟩ := ih
    rw [List.replicate_succ', runClosures_snoc]
    dsimp only
    generalize runClosures key hash value (s, .init, none) (List.replicate (k + 1) (.onModify old)) = r
      at hid hl
    obtain ⟨s₀, l, _⟩ := r
    dsimp only at hid hl
    subst hl
    refine ⟨by simp [callClosure, onModify, hid]; omega, ?_⟩
    simp only [callClosure, onModify, newEntryWith_fst, hid, InsertLocals.mk.injEq, true_and]
    refine ⟨by omega, ?_⟩
    congr 2

/-- After 256 calls of `on_modify`, the shared `AtomicU8` is back at 0, so an `on_insert`
that comes last is stamped 0 and loses to the last `on_modify`, stamped 255:
`do_insert_with_hash` returns that `on_modify`'s `WriteOp` and unsets the old entry's
pointers, while the map holds the entry `on_insert` made. -/
theorem doInsertWithHash_after_wrap [DecidableEq K] (s : Inner K V σ) (old : ValueEntry V) :
    ∃ s', doInsertWithHash key hash value s (List.replicate 256 (.onModify old) ++ [.onInsert]) =
        some (.upsert ⟨key, hash⟩ ⟨s.nextId + 255, value, old.info⟩, s') ∧
      s'.cache.lookup key = some ⟨s.nextId + 256, value, s.nextId + 256⟩ := by
  obtain ⟨hid, hl⟩ := runClosures_onModify key hash value s old 255
  unfold doInsertWithHash insertWithOrModify pickWriteOp
  rw [runClosures_snoc]
  dsimp only
  generalize runClosures key hash value (s, .init, none) (List.replicate (255 + 1) (.onModify old)) = r
    at hid hl
  obtain ⟨s₀, l, _⟩ := r
  dsimp only at hid hl
  subst hl
  refine ⟨_, rfl, ?_⟩
  simp only [unsetQNodes_cache, AList.lookup_insert, callClosure, onInsert, newEntry_fst, hid]

end Inner

end Moka
