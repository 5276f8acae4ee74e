import Mathlib.Tactic.Ring

/-!
# Arithmetic that may overflow

The operations of 64-bit unsigned integers in a build that checks for overflow, where they panic (`none`), and in one
that does not, where they wrap. What a checked build computes is exact (`add_checked`, `sub_checked`, `mul_checked`),
and every build computes it too (`of_checked`). The capacity of a vector is checked in every build (`withCapacity`).
-/

set_option autoImplicit false

namespace Overflow

/-- An operation with a value, and a condition on which it overflows. -/
def guarded (checks : Bool) (overflows : Prop) [Decidable overflows] (value : UInt64) : Option UInt64 :=
  if checks ∧ overflows then none else some value

/-- `+`. -/
def add (checks : Bool) (a b : UInt64) : Option UInt64 := guarded checks (2 ^ 64 ≤ a.toNat + b.toNat) (a + b)

/-- `-`. -/
def sub (checks : Bool) (a b : UInt64) : Option UInt64 := guarded checks (a.toNat < b.toNat) (a - b)

/-- `*`. -/
def mul (checks : Bool) (a b : UInt64) : Option UInt64 := guarded checks (2 ^ 64 ≤ a.toNat * b.toNat) (a * b)

variable {overflows : Prop} [Decidable overflows] {a b c : UInt64}

@[simp] theorem guarded_false : guarded false overflows c = some c := if_neg fun h => Bool.false_ne_true h.1

theorem guarded_true : guarded true overflows a = some c ↔ ¬overflows ∧ a = c := by
  rw [guarded]
  by_cases h : overflows
  · rw [if_pos ⟨rfl, h⟩]
    exact iff_of_false (by rintro ⟨⟩) fun hn => hn.1 h
  · rw [if_neg fun hc => h hc.2, Option.some.injEq]
    exact (and_iff_right h).symm

/-- Every build computes what a checked build does. -/
theorem of_checked (checks : Bool) (h : guarded true overflows a = some c) : guarded checks overflows a = some c := by
  cases checks with
  | true => exact h
  | false => rw [guarded_false, (guarded_true.1 h).2]

theorem add_checked : add true a b = some c ↔ a.toNat + b.toNat = c.toNat := by
  have hc := c.toNat_lt
  rw [add, guarded_true, ← UInt64.toNat_inj, UInt64.toNat_add]
  omega

theorem sub_checked : sub true a b = some c ↔ b.toNat + c.toNat = a.toNat := by
  rw [sub, guarded_true, ← UInt64.toNat_inj, Nat.not_lt, and_congr_right fun h => by
    rw [UInt64.toNat_sub_of_le _ _ (UInt64.le_iff_toNat_le.2 h)]]
  omega

theorem mul_checked : mul true a b = some c ↔ a.toNat * b.toNat = c.toNat := by
  have hc := c.toNat_lt
  rw [mul, guarded_true, ← UInt64.toNat_inj, UInt64.toNat_mul]
  omega

/-- `Vec::with_capacity` on a 64-bit machine: in every build it panics for more than `isize::MAX` bytes. -/
def withCapacity (size count : Nat) : Option Unit := if size * count < 2 ^ 63 then some () else none

variable {size count : Nat}

@[simp] theorem withCapacity_eq_some : withCapacity size count = some () ↔ size * count < 2 ^ 63 :=
  Option.ite_none_right_eq_some.trans (and_iff_left rfl)

@[simp] theorem withCapacity_eq_none : withCapacity size count = none ↔ 2 ^ 63 ≤ size * count := by
  rw [withCapacity, ite_eq_right_iff, ← Nat.not_lt]
  exact imp_congr_right fun _ => iff_of_false nofun id

end Overflow
