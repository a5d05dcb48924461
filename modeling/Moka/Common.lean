import Mathlib.Algebra.Group.Nat.Basic
import Mathlib.Order.Basic
import Mathlib.Algebra.Order.Ring.Nat

/-!
# Machine words

The cache counts weights, predicate ids and closure serial numbers in fixed-width
unsigned words, and each Rust operation on them has its own overflow behaviour. The
model keeps a `u64` as a `Nat` below `2 ^ 64` and spells out the operation:

- `wrappingAdd`: `+` on `u64` in a release build (`has_enough_capacity`,
  base_cache.rs:708–712; `add_policy_weight`, base_cache.rs:391–393) and
  `AtomicU64::fetch_add` (invalidator.rs:119), both modulo `2 ^ 64`;
- `saturatingAdd`, `saturatingSub`: `u64::saturating_add` and `u64::saturating_sub`
  (`WeightedSize`, base_cache.rs:363–374).

Timestamps (`quanta::Instant`) are `u64` ticks, kept as `Nat`; the source compares them
and packs them into atomics (`as_u64`, `transmute`), which is the identity on ticks.
`u64Max` is the sentinel that marks an unset timestamp.
-/

namespace Moka

/-- The largest `u64`, `u64::MAX`. -/
def u64Max : Nat := 2 ^ 64 - 1

/-- Addition modulo `2 ^ 64`: release-build `+` on `u64`, and `fetch_add`. -/
def wrappingAdd (a b : Nat) : Nat := (a + b) % 2 ^ 64

/-- The `u64::saturating_add` of two `u64` values. -/
def saturatingAdd (a b : Nat) : Nat := if a + b ≤ u64Max then a + b else u64Max

/-- The `u64::saturating_sub`: truncated subtraction, which is `Nat`'s own. -/
def saturatingSub (a b : Nat) : Nat := a - b

theorem wrappingAdd_lt (a b : Nat) : wrappingAdd a b < 2 ^ 64 :=
  Nat.mod_lt _ (by decide)

theorem wrappingAdd_of_lt {a b : Nat} (h : a + b < 2 ^ 64) : wrappingAdd a b = a + b :=
  Nat.mod_eq_of_lt h

theorem wrappingAdd_le_add (a b : Nat) : wrappingAdd a b ≤ a + b :=
  Nat.mod_le _ _

theorem saturatingAdd_le_u64Max (a b : Nat) : saturatingAdd a b ≤ u64Max := by
  unfold saturatingAdd
  split <;> omega

end Moka
