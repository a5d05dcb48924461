import Mathlib.Data.List.AList
import Mathlib.Data.List.Perm.Subperm
import Moka.Common

/-!
# The predicate registry

`Invalidator` (invalidator.rs:63–153) keeps the predicates that `invalidate_entries_if`
registers, in a map from a `u64` id to a `PredicateImpl`, beside an `is_empty` flag that
the read path consults before it takes the registry's lock. This module models the
registry half of the struct and its three operations:

- `registerPredicate` (invalidator.rs:108–133): draw ids from the wrapping counter
  `last_key` until one is free, at most `MAX_RETRY` times;
- `removePredicate` (invalidator.rs:135–141);
- `applyPredicates` (invalidator.rs:143–153), the check `get` makes on every hit.

The registry is a Mathlib `AList`, which carries the uniqueness of its keys.

## Main results

- `registerPredicate_spec`: the outcome of a registration for every registry state
  and every value of `last_key`, with the wrap-around of the id counter.
- `RegistryReachable.inv`: in every registry reached from `Invalidator.new` by
  registrations and removals, `is_empty` is exact and no predicate has a scanned range.
- `applyPredicates_iff`: so the read path answers "some registered predicate,
  registered at or after the entry's last modification, matches".
-/

namespace Moka

variable {K V : Type}

/-! ## Predicates -/

/-- A registered predicate, `PredicateImpl` (invalidator.rs:279–297): the user's closure,
its registration time, and the range of timestamps already checked by it (atomics in the
source). -/
structure PredicateImpl (K V : Type) where
  f : K → V → Bool
  registeredAt : Nat
  oldest : Nat
  newest : Nat

/-- The scan task's copy of a predicate, `PredicateImplLite` (invalidator.rs:311–320):
the same data without the atomics. -/
structure PredicateImplLite (K V : Type) where
  f : K → V → Bool
  registeredAt : Nat
  oldest : Nat
  newest : Nat

/-- The trait `Predicate` (invalidator.rs:274–277). -/
class Predicate (P : Type) (K V : outParam Type) where
  isApplicable : P → Nat → Bool
  apply : P → K → V → Bool

namespace PredicateImpl

/-- Fresh predicate: nothing scanned yet, `oldest = u64::MAX`, `newest = u64::MIN`. -/
def new (f : K → V → Bool) (registeredAt : Nat) : PredicateImpl K V where
  f := f
  registeredAt := registeredAt
  oldest := u64Max
  newest := 0

/-- Whether an entry last modified at `lastModified` is still to be checked
(invalidator.rs:300–304). -/
def isApplicable (p : PredicateImpl K V) (lastModified : Nat) : Bool :=
  decide (lastModified ≤ p.registeredAt) &&
    (decide (lastModified < p.oldest) || decide (p.newest < lastModified))

instance : Predicate (PredicateImpl K V) K V where
  isApplicable := isApplicable
  apply p key value := p.f key value

/-- With the range still at its sentinels, applicability is the registration time alone:
no `u64` is both `≥ u64::MAX` and `≤ u64::MIN`. -/
theorem isApplicable_of_fresh {p : PredicateImpl K V} (ho : p.oldest = u64Max)
    (hn : p.newest = 0) (ts : Nat) : p.isApplicable ts = decide (ts ≤ p.registeredAt) := by
  have : ts < u64Max ∨ 0 < ts := by unfold u64Max; omega
  simp [isApplicable, ho, hn, this]

end PredicateImpl

namespace PredicateImplLite

/-- The snapshot of one predicate taken by `submit_task` (invalidator.rs:322–331); the
`transmute` of the `u64` atomics into `Instant`s is the identity on ticks. -/
def new (pred : PredicateImpl K V) : PredicateImplLite K V where
  f := pred.f
  registeredAt := pred.registeredAt
  oldest := pred.oldest
  newest := pred.newest

/-- Applicability of the snapshot (invalidator.rs:334–337). -/
def isApplicable (p : PredicateImplLite K V) (lastModified : Nat) : Bool :=
  decide (lastModified ≤ p.registeredAt) &&
    (decide (lastModified < p.oldest) || decide (p.newest < lastModified))

instance : Predicate (PredicateImplLite K V) K V where
  isApplicable := isApplicable
  apply p key value := p.f key value

@[simp] theorem new_isApplicable (pred : PredicateImpl K V) (ts : Nat) :
    (new pred).isApplicable ts = pred.isApplicable ts := rfl

@[simp] theorem new_f (pred : PredicateImpl K V) : (new pred).f = pred.f := rfl

end PredicateImplLite

/-- The loop of `do_apply_predicates` (invalidator.rs:240–251): the first applicable
predicate that matches ends it with `true`. -/
def doApplyPredicates {P : Type} [Predicate P K V] (predicates : List P) (key : K)
    (value : V) (ts : Nat) : Bool :=
  predicates.any fun p => Predicate.isApplicable p ts && Predicate.apply p key value

/-! ## The invalidator -/

/-- The errors of `invalidate_entries_if` (invalidator.rs:473–479). -/
inductive PredicateRegistrationError
  | writeOrderQueueDisabled
  | noSpaceLeft
  deriving DecidableEq, Repr

/-- The result a scan task leaves in the slot, `InternalInvalidationResult`
(invalidator.rs:457–461). An invalidated entry is kept with the key it was removed under,
as `process_invalidation_result` reads it (base_cache.rs:1133). -/
structure InternalInvalidationResult (K E : Type) where
  invalidated : List (K × E)
  isTruncated : Bool
  newestTimestamp : Option Nat

/-- The default result, stored when the cache is already gone (invalidator.rs:463–471). -/
def InternalInvalidationResult.default {K E : Type} : InternalInvalidationResult K E :=
  ⟨[], false, none⟩

/-- The invalidator's state (invalidator.rs:63–73): the registry, the `is_empty` flag, the
id counter, the scan context's predicate snapshot, the task's result slot (the field `task_result`) and its running
flag. `E` is the type of entry references. -/
structure Invalidator (K V E : Type) where
  predicates : AList (fun _ : Nat => PredicateImpl K V)
  isEmpty : Bool
  lastKey : Nat
  lastKey_lt : lastKey < 2 ^ 64
  scanContext : List (PredicateImplLite K V)
  resultSlot : Option (InternalInvalidationResult K E)
  isTaskRunning : Bool

namespace Invalidator

variable {E : Type}

/-- A fresh invalidator (invalidator.rs:85–102); `last_key` starts at `u64::MAX`. -/
def new : Invalidator K V E where
  predicates := ∅
  isEmpty := true
  lastKey := u64Max
  lastKey_lt := by unfold u64Max; omega
  scanContext := []
  resultSlot := none
  isTaskRunning := false

/-- The registered predicates, `predicates.values()`. -/
def predicateValues (inv : Invalidator K V E) : List (PredicateImpl K V) :=
  inv.predicates.entries.map Sigma.snd

/-- The `i`-th id after `last` drawn from the wrapping counter. -/
def keyAt (last i : Nat) : Nat := (last + i) % 2 ^ 64

/-- The counter `last_key` after `n` calls of `fetch_add(1)`. -/
def advanceLastKey (inv : Invalidator K V E) (n : Nat) : Invalidator K V E :=
  { inv with lastKey := keyAt inv.lastKey n, lastKey_lt := Nat.mod_lt _ (by decide) }

/-- The number of ids `register_predicate` tries, `MAX_RETRY` (invalidator.rs:113). -/
def maxRetry : Nat := 10000

/-- The retry loop of `register_predicate` (invalidator.rs:117–132), with `tries` the
number of ids it may still draw. -/
def registerPredicateLoop (pred : PredicateImpl K V) :
    Nat → Invalidator K V E → Except PredicateRegistrationError Nat × Invalidator K V E
  | 0, inv => (.error .noSpaceLeft, inv)
  | tries + 1, inv =>
    let id := inv.lastKey
    let inv := inv.advanceLastKey 1
    if id ∈ inv.predicates then registerPredicateLoop pred tries inv
    else (.ok id, { inv with predicates := inv.predicates.insert id pred, isEmpty := false })

/-- The method `register_predicate` (invalidator.rs:108–133). -/
def registerPredicate (inv : Invalidator K V E) (predicate : K → V → Bool)
    (registeredAt : Nat) : Except PredicateRegistrationError Nat × Invalidator K V E :=
  registerPredicateLoop (PredicateImpl.new predicate registeredAt) maxRetry inv

/-- The method `remove_predicate` (invalidator.rs:135–141). -/
def removePredicate (inv : Invalidator K V E) (id : Nat) : Invalidator K V E :=
  let preds := inv.predicates.erase id
  { inv with predicates := preds, isEmpty := if preds.entries.isEmpty then true else inv.isEmpty }

/-- The check of the read path, `apply_predicates` (invalidator.rs:143–153), for an entry
with this value and `last_modified()`. -/
def applyPredicates (inv : Invalidator K V E) (key : K) (value : V)
    (lastModified : Option Nat) : Bool :=
  if inv.isEmpty then false
  else match lastModified with
    | some ts => doApplyPredicates inv.predicateValues key value ts
    | none => false

@[simp] theorem advanceLastKey_lastKey (inv : Invalidator K V E) (n : Nat) :
    (inv.advanceLastKey n).lastKey = keyAt inv.lastKey n := rfl

@[simp] theorem advanceLastKey_predicates (inv : Invalidator K V E) (n : Nat) :
    (inv.advanceLastKey n).predicates = inv.predicates := rfl

@[simp] theorem advanceLastKey_isEmpty (inv : Invalidator K V E) (n : Nat) :
    (inv.advanceLastKey n).isEmpty = inv.isEmpty := rfl

theorem advanceLastKey_advanceLastKey (inv : Invalidator K V E) (m n : Nat) :
    (inv.advanceLastKey m).advanceLastKey n = inv.advanceLastKey (m + n) := by
  simp only [advanceLastKey, keyAt, Nat.mod_add_mod, Nat.add_assoc]

theorem keyAt_succ (last i : Nat) : keyAt (keyAt last 1) i = keyAt last (i + 1) := by
  simp only [keyAt, Nat.mod_add_mod, Nat.add_assoc, Nat.add_comm 1 i]

theorem keyAt_zero {last : Nat} (h : last < 2 ^ 64) : keyAt last 0 = last :=
  Nat.mod_eq_of_lt h

/-- Distinct draws below `2 ^ 64` give distinct ids. -/
theorem keyAt_injective {last i j : Nat} (hi : i < 2 ^ 64) (hj : j < 2 ^ 64)
    (h : keyAt last i = keyAt last j) : i = j := by
  unfold keyAt at h
  omega

/-! ## Registration -/

/-- What the retry loop does, for every number of tries: either every id it draws is
taken and it fails with the registry untouched, or the first free id is bound. -/
theorem registerPredicateLoop_spec (pred : PredicateImpl K V) :
    ∀ (tries : Nat) (inv : Invalidator K V E),
      ((∀ i < tries, keyAt inv.lastKey i ∈ inv.predicates) ∧
        registerPredicateLoop pred tries inv = (.error .noSpaceLeft, inv.advanceLastKey tries)) ∨
      (∃ j < tries, keyAt inv.lastKey j ∉ inv.predicates ∧
        (∀ i < j, keyAt inv.lastKey i ∈ inv.predicates) ∧
        registerPredicateLoop pred tries inv =
          (.ok (keyAt inv.lastKey j),
            { inv.advanceLastKey (j + 1) with
              predicates := inv.predicates.insert (keyAt inv.lastKey j) pred, isEmpty := false }))
  | 0, inv => .inl ⟨fun _ h => absurd h (Nat.not_lt_zero _), by
      simp [registerPredicateLoop, advanceLastKey, keyAt_zero inv.lastKey_lt]⟩
  | tries + 1, inv => by
    have h0 : keyAt inv.lastKey 0 = inv.lastKey := keyAt_zero inv.lastKey_lt
    by_cases hmem : inv.lastKey ∈ inv.predicates
    · have hstep : registerPredicateLoop pred (tries + 1) inv =
          registerPredicateLoop pred tries (inv.advanceLastKey 1) := by
        simp [registerPredicateLoop, hmem]
      rcases registerPredicateLoop_spec pred tries (inv.advanceLastKey 1) with
        ⟨hall, heq⟩ | ⟨j, hj, hfree, hbefore, heq⟩
      · refine .inl ⟨fun i hi => ?_, ?_⟩
        · cases i with
          | zero => rwa [h0]
          | succ i => simpa [keyAt_succ] using hall i (by omega)
        · rw [hstep, heq, advanceLastKey_advanceLastKey, Nat.add_comm 1 tries]
      · refine .inr ⟨j + 1, by omega, by simpa [keyAt_succ] using hfree, fun i hi => ?_, ?_⟩
        · cases i with
          | zero => rwa [h0]
          | succ i => simpa [keyAt_succ] using hbefore i (by omega)
        · rw [hstep, heq]
          simp only [advanceLastKey_advanceLastKey, advanceLastKey_predicates, advanceLastKey,
            keyAt_succ, Nat.add_comm 1]
    · refine .inr ⟨0, by omega, by rwa [h0], fun i hi => absurd hi (Nat.not_lt_zero _), ?_⟩
      simp [registerPredicateLoop, hmem, h0]

/-- Ten thousand distinct ids taken means at least ten thousand predicates. -/
theorem maxRetry_le_length_of_taken (inv : Invalidator K V E)
    (h : ∀ i < maxRetry, keyAt inv.lastKey i ∈ inv.predicates) :
    maxRetry ≤ inv.predicates.keys.length := by
  have hnodup : ((List.range maxRetry).map (keyAt inv.lastKey)).Nodup :=
    (List.nodup_range maxRetry).map_on fun i hi j hj hij =>
      keyAt_injective (lt_trans (List.mem_range.1 hi) (by decide))
        (lt_trans (List.mem_range.1 hj) (by decide)) hij
  have hsub : (List.range maxRetry).map (keyAt inv.lastKey) ⊆ inv.predicates.keys := by
    intro x hx
    obtain ⟨i, hi, rfl⟩ := List.mem_map.1 hx
    exact AList.mem_keys.1 (h i (List.mem_range.1 hi))
  simpa using (List.subperm_of_subset hnodup hsub).length_le

/-- **Registration.** For every registry and every value of `last_key`: if all
`MAX_RETRY` ids `last_key, last_key + 1, …` (mod `2 ^ 64`) are taken, the call fails
with `NoSpaceLeft`, leaves the registry and `is_empty` as they were, and at least
`MAX_RETRY` predicates are registered; otherwise it returns the first free id of that
sequence, binds exactly it to the new predicate, and clears `is_empty`. -/
theorem registerPredicate_spec (inv : Invalidator K V E) (f : K → V → Bool)
    (registeredAt : Nat) :
    ((∀ i < maxRetry, keyAt inv.lastKey i ∈ inv.predicates) →
        (inv.registerPredicate f registeredAt).1 = .error .noSpaceLeft ∧
        (inv.registerPredicate f registeredAt).2.predicates = inv.predicates ∧
        (inv.registerPredicate f registeredAt).2.isEmpty = inv.isEmpty ∧
        maxRetry ≤ inv.predicates.keys.length) ∧
    (¬ (∀ i < maxRetry, keyAt inv.lastKey i ∈ inv.predicates) →
      ∃ j < maxRetry, keyAt inv.lastKey j ∉ inv.predicates ∧
        (∀ i < j, keyAt inv.lastKey i ∈ inv.predicates) ∧
        (inv.registerPredicate f registeredAt).1 = .ok (keyAt inv.lastKey j) ∧
        (∀ x, (inv.registerPredicate f registeredAt).2.predicates.lookup x =
          if x = keyAt inv.lastKey j then some (PredicateImpl.new f registeredAt)
          else inv.predicates.lookup x) ∧
        (inv.registerPredicate f registeredAt).2.isEmpty = false) := by
  unfold registerPredicate
  rcases registerPredicateLoop_spec (PredicateImpl.new f registeredAt) maxRetry inv with
    ⟨hall, heq⟩ | ⟨j, hj, hfree, hbefore, heq⟩
  · refine ⟨fun _ => ?_, fun hn => absurd hall hn⟩
    rw [heq]
    exact ⟨rfl, advanceLastKey_predicates _ _, advanceLastKey_isEmpty _ _,
      maxRetry_le_length_of_taken inv hall⟩
  · refine ⟨fun hall => absurd (hall j hj) hfree, fun _ => ⟨j, hj, hfree, hbefore, ?_⟩⟩
    rw [heq]
    refine ⟨rfl, fun x => ?_, rfl⟩
    split_ifs with hx
    · subst hx
      exact AList.lookup_insert _
    · exact AList.lookup_insert_ne hx

/-! ## Reachable registries -/

/-- Registries reached from `Invalidator.new` by any sequence of `register_predicate` and
`remove_predicate` calls. -/
inductive RegistryReachable : Invalidator K V E → Prop
  | new : RegistryReachable new
  | register {inv : Invalidator K V E} (f : K → V → Bool) (registeredAt : Nat) :
      RegistryReachable inv → RegistryReachable (inv.registerPredicate f registeredAt).2
  | remove {inv : Invalidator K V E} (id : Nat) :
      RegistryReachable inv → RegistryReachable (inv.removePredicate id)

/-- The registry's invariant: `is_empty` is exact, and no registered predicate has had
its scanned range moved off the sentinels (no code of the crate stores to it). -/
structure RegistryInv (inv : Invalidator K V E) : Prop where
  isEmpty_iff : inv.isEmpty = true ↔ inv.predicates.entries = []
  fresh : ∀ id p, inv.predicates.lookup id = some p → p.oldest = u64Max ∧ p.newest = 0

theorem mem_predicateValues {inv : Invalidator K V E} {p : PredicateImpl K V} :
    p ∈ inv.predicateValues ↔ ∃ id, inv.predicates.lookup id = some p := by
  simp only [predicateValues, List.mem_map]
  constructor
  · rintro ⟨⟨id, q⟩, hq, rfl⟩
    exact ⟨id, AList.mem_lookup_iff.2 hq⟩
  · rintro ⟨id, h⟩
    exact ⟨⟨id, p⟩, AList.mem_lookup_iff.1 h, rfl⟩

theorem entries_eq_nil_of_lookup {s : AList (fun _ : Nat => PredicateImpl K V)}
    (h : s.entries = []) (x : Nat) : s.lookup x = none := by
  simp [AList.lookup, h]

theorem registryInv_new : RegistryInv (new : Invalidator K V E) :=
  ⟨by simp [new, AList.empty_entries], fun _ _ h => by simp [new, AList.lookup_empty] at h⟩

theorem RegistryInv.register {inv : Invalidator K V E} (h : RegistryInv inv)
    (f : K → V → Bool) (registeredAt : Nat) :
    RegistryInv (inv.registerPredicate f registeredAt).2 := by
  unfold registerPredicate
  rcases registerPredicateLoop_spec (PredicateImpl.new f registeredAt) maxRetry inv with
    ⟨-, heq⟩ | ⟨j, -, -, -, heq⟩ <;> rw [heq] <;> dsimp only
  · exact ⟨by rw [advanceLastKey_isEmpty, advanceLastKey_predicates]; exact h.isEmpty_iff,
      by rw [advanceLastKey_predicates]; exact h.fresh⟩
  · refine ⟨⟨fun hc => absurd hc Bool.false_ne_true, fun hnil => ?_⟩, fun x p hp => ?_⟩
    · have := entries_eq_nil_of_lookup hnil (keyAt inv.lastKey j)
      simp [AList.lookup_insert] at this
    · by_cases hx : x = keyAt inv.lastKey j
      · subst hx
        simp only [AList.lookup_insert, Option.some.injEq] at hp
        subst hp
        exact ⟨rfl, rfl⟩
      · rw [AList.lookup_insert_ne hx] at hp
        exact h.fresh x p hp

theorem RegistryInv.remove {inv : Invalidator K V E} (h : RegistryInv inv) (id : Nat) :
    RegistryInv (inv.removePredicate id) := by
  refine ⟨?_, fun x p hp => ?_⟩
  · by_cases hnil : (inv.predicates.erase id).entries = []
    · simp [removePredicate, hnil]
    · have hne : inv.predicates.entries ≠ [] := fun h0 => hnil (by
        change List.kerase id inv.predicates.entries = []
        rw [h0]
        rfl)
      simp [removePredicate, hnil, h.isEmpty_iff, hne]
  · by_cases hx : x = id
    · subst hx
      simp [removePredicate, AList.lookup_erase] at hp
    · exact h.fresh x p (by simpa [removePredicate, AList.lookup_erase_ne hx] using hp)

/-- **Registry invariant.** Every reachable registry has an exact `is_empty` flag and
only predicates whose scanned range is still at its sentinels. -/
theorem RegistryReachable.inv {inv : Invalidator K V E} (h : RegistryReachable inv) :
    RegistryInv inv := by
  induction h with
  | new => exact registryInv_new
  | register f registeredAt _ ih => exact ih.register f registeredAt
  | remove id _ ih => exact ih.remove id

/-- What the read path decides, under the registry invariant: some registered predicate,
registered at or after the entry's last modification, matches the key and value. -/
theorem RegistryInv.applyPredicates_iff {inv : Invalidator K V E} (h : RegistryInv inv)
    (key : K) (value : V) (lm : Nat) :
    inv.applyPredicates key value (some lm) = true ↔
      ∃ id p, inv.predicates.lookup id = some p ∧ lm ≤ p.registeredAt ∧ p.f key value = true := by
  cases hempty : inv.isEmpty
  · simp only [applyPredicates, hempty, doApplyPredicates, List.any_eq_true, Bool.and_eq_true,
      Bool.false_eq_true, if_false]
    constructor
    · rintro ⟨p, hp, happ, hf⟩
      obtain ⟨id, hid⟩ := mem_predicateValues.1 hp
      obtain ⟨ho, hn⟩ := h.fresh id p hid
      refine ⟨id, p, hid, ?_, hf⟩
      simpa [Predicate.isApplicable, PredicateImpl.isApplicable_of_fresh ho hn] using happ
    · rintro ⟨id, p, hid, hle, hf⟩
      obtain ⟨ho, hn⟩ := h.fresh id p hid
      refine ⟨p, mem_predicateValues.2 ⟨id, hid⟩, ?_, hf⟩
      simpa [Predicate.isApplicable, PredicateImpl.isApplicable_of_fresh ho hn] using hle
  · have hnil := h.isEmpty_iff.1 hempty
    simp [applyPredicates, hempty, entries_eq_nil_of_lookup hnil]

end Invalidator

end Moka
