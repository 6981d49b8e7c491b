import Mathlib.Algebra.Order.Floor.Ring
import Mathlib.Data.Rat.Floor
import Mathlib.Tactic.Linarith
import Mathlib.Tactic.NormNum
import Mathlib.Tactic.Ring

/-!
# Rounding in five directions

A number of an ordered field is rounded toward zero or away from it, down or up, or to the
nearest integer with halves away from zero. The direction of the opposite number is the
opposite one, and a quotient of natural numbers is rounded by adding a
bias before an integer division.

## Main definitions

* `Rounding`, `Rounding.apply`, `Rounding.flip`, `Rounding.bias`
* `Rounding.apply_neg`, `Rounding.apply_div` — rounding on natural numbers is enough.
-/

namespace AudioCrash

/-- A direction. -/
inductive Rounding where
  /-- Toward zero. -/
  | zero
  /-- Away from zero. -/
  | inf
  | down
  | up
  /-- To the nearest integer, halves away from zero. -/
  | nearInf
  deriving DecidableEq, Repr

namespace Rounding

/-- The direction for the opposite number. -/
def flip : Rounding → Rounding
  | down => up
  | up => down
  | m => m

/-- What is added to a natural number before the division by `c`. -/
def bias (m : Rounding) (c : ℕ) : ℕ :=
  match m with
  | zero | down => 0
  | inf | up => c - 1
  | nearInf => c / 2

section field
variable {K : Type*} [Field K] [LinearOrder K] [IsStrictOrderedRing K] [FloorRing K]

/-- Round. -/
def apply (m : Rounding) (q : K) : ℤ :=
  match m with
  | zero => if 0 ≤ q then ⌊q⌋ else ⌈q⌉
  | inf => if 0 ≤ q then ⌈q⌉ else ⌊q⌋
  | down => ⌊q⌋
  | up => ⌈q⌉
  | nearInf => if 0 ≤ q then ⌊q + 1 / 2⌋ else ⌈q - 1 / 2⌉

/-- **The opposite number is rounded in the opposite direction.** -/
theorem apply_neg (m : Rounding) (q : K) : m.apply (-q) = -m.flip.apply q := by
  rcases lt_trichotomy q 0 with hq | rfl | hq
  · have hneg : ¬ 0 ≤ q := not_le.2 hq
    have hpos : 0 ≤ -q := by linarith
    have hhalf : -q + 1 / 2 = -(q - 1 / 2) := by ring
    cases m <;> simp only [apply, flip, hneg, hpos, if_true, if_false, Int.floor_neg, Int.ceil_neg,
      hhalf]
  · cases m <;> norm_num [apply, flip]
  · have hneg : ¬ 0 ≤ -q := by linarith
    have hhalf : -q - 1 / 2 = -(q + 1 / 2) := by ring
    cases m <;> simp only [apply, flip, hneg, hq.le, if_true, if_false, Int.floor_neg,
      Int.ceil_neg, hhalf]

end field

/-! ## Quotients of natural numbers -/

theorem ceil_div {n c : ℕ} (hc : 0 < c) : ⌈(n : ℚ) / c⌉ = ((n + (c - 1)) / c : ℕ) := by
  have hlow := Nat.div_mul_le_self (n + (c - 1)) c
  have hhigh := Nat.lt_div_mul_add (a := n + (c - 1)) hc
  have hcq : (0 : ℚ) < c := by exact_mod_cast hc
  have hle : (n : ℚ) ≤ ((n + (c - 1)) / c : ℕ) * c := by
    exact_mod_cast (by omega : n ≤ (n + (c - 1)) / c * c)
  have hlt : (((n + (c - 1)) / c : ℕ) : ℚ) * c < n + c := by
    exact_mod_cast (by omega : (n + (c - 1)) / c * c < n + c)
  rw [Int.ceil_eq_iff, lt_div_iff₀ hcq, div_le_iff₀ hcq, Int.cast_natCast]
  exact ⟨by linarith, hle⟩

theorem floor_div_add_half {n c : ℕ} (hc : 0 < c) :
    ⌊(n : ℚ) / c + 1 / 2⌋ = ((n + c / 2) / c : ℕ) := by
  have hlow := Nat.div_mul_le_self (n + c / 2) c
  have hhigh := Nat.lt_div_mul_add (a := n + c / 2) hc
  have hcq : (0 : ℚ) < c := by exact_mod_cast hc
  have hle : 2 * ((((n + c / 2) / c : ℕ) : ℚ) * c) ≤ 2 * n + c := by
    exact_mod_cast (by omega : 2 * ((n + c / 2) / c * c) ≤ 2 * n + c)
  have hlt : 2 * (n : ℚ) + c < 2 * ((((n + c / 2) / c : ℕ) : ℚ) * c + c) := by
    exact_mod_cast (by omega : 2 * n + c < 2 * ((n + c / 2) / c * c + c))
  have hsum : (n : ℚ) / c + 1 / 2 = (n + c / 2) / c := by
    field_simp
  rw [Int.floor_eq_iff, hsum, le_div_iff₀ hcq, div_lt_iff₀ hcq, Int.cast_natCast]
  exact ⟨by linarith, by linarith⟩

/-- **A quotient is rounded by an integer division.** -/
theorem apply_div (m : Rounding) {n c : ℕ} (hc : 0 < c) :
    m.apply ((n : ℚ) / c) = ((n + m.bias c) / c : ℕ) := by
  have hpos : (0 : ℚ) ≤ (n : ℚ) / c := by positivity
  have hfloor : ⌊(n : ℚ) / c⌋ = ((n / c : ℕ) : ℤ) := by
    rw [Rat.floor_natCast_div_natCast]
    rfl
  cases m with
  | zero => simp only [apply, if_pos hpos, bias, Nat.add_zero, hfloor]
  | down => simp only [apply, bias, Nat.add_zero, hfloor]
  | up => simp only [apply, bias, ceil_div hc]
  | inf => simp only [apply, if_pos hpos, bias, ceil_div hc]
  | nearInf =>
    simp only [apply, if_pos hpos, bias, floor_div_add_half hc]

end Rounding
end AudioCrash
