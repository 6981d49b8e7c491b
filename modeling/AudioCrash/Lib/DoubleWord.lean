import Mathlib.Data.Nat.ModEq
import Mathlib.Tactic.Linarith
import Mathlib.Tactic.Ring

/-!
# Products and quotients of double words

A word is a natural number below `W`, and a double word is a pair of words. The product of two
words is computed from their halves, where a sum that has wrapped is smaller than what was
added. A double word is divided by a word one bit at a time, from the highest bit on: the
remainder is doubled, the bit is shifted in, and the divisor is subtracted where it can be.

## Main definitions

* `DoubleWord.carry`, `DoubleWord.carry_eq` — what is lost when a sum wraps.
* `DoubleWord.cross`, `DoubleWord.mulWide`, `DoubleWord.mulWide_eq` — the product.
* `DoubleWord.divStep`, `DoubleWord.divLoop`, `DoubleWord.divLoop_eq` — the quotient.
* `DoubleWord.mul_add_div` — the three together.
-/

namespace AudioCrash.DoubleWord

/-! ## Sums -/

/-- One when a sum that `y` was added to last has wrapped. -/
def carry (sum y : ℕ) : ℕ := if sum < y then 1 else 0

/-- **A sum that has wrapped is smaller than what was added.** -/
theorem carry_eq {W x y : ℕ} (hx : x < W) (hy : y < W) :
    carry ((x + y) % W) y * W + (x + y) % W = x + y := by
  rcases Nat.lt_or_ge (x + y) W with hlt | hge
  · rw [Nat.mod_eq_of_lt hlt, carry, if_neg (by omega), Nat.zero_mul, Nat.zero_add]
  · have hmod : (x + y) % W = x + y - W := by
      rw [Nat.mod_eq_sub_mod hge, Nat.mod_eq_of_lt (by omega)]
    rw [hmod, carry, if_pos (by omega)]
    omega

/-! ## Products -/

section product
variable (H a b : ℕ)

/-- The products of a low and a high half. -/
def cross : ℕ := (a % H * (b / H) + a / H * (b % H)) % (H * H)

/-- The high and the low word of the product. -/
def mulWide : ℕ × ℕ :=
  let shifted := cross H a b * H % (H * H)
  let low := (a % H * (b % H) + shifted) % (H * H)
  ((a / H * (b / H) + cross H a b / H + carry low shifted) % (H * H), low)

variable {H a b}

/-- **The product of two words**, where the sum of the cross products is a word. -/
theorem mulWide_eq (ha : a < H * H) (hb : b < H * H)
    (hcross : a % H * (b / H) + a / H * (b % H) < H * H) :
    (mulWide H a b).1 * (H * H) + (mulWide H a b).2 = a * b ∧ (mulWide H a b).2 < H * H := by
  have hH : 0 < H := Nat.pos_of_ne_zero fun h => by simp [h] at ha
  have hW : 0 < H * H := Nat.mul_pos hH hH
  have ht : cross H a b = a % H * (b / H) + a / H * (b % H) := Nat.mod_eq_of_lt hcross
  have hshifted : cross H a b * H = cross H a b / H * (H * H) + cross H a b * H % (H * H) := by
    have hdiv : cross H a b * H / (H * H) = cross H a b / H := by
      rw [Nat.mul_comm _ H, Nat.mul_div_mul_left _ _ hH]
    rw [← hdiv, Nat.div_add_mod']
  have hlow : a % H * (b % H) < H * H :=
    Nat.mul_lt_mul'' (Nat.mod_lt _ hH) (Nat.mod_lt _ hH)
  have hcarry := carry_eq hlow (Nat.mod_lt (cross H a b * H) hW)
  have hproduct : a * b = a / H * (b / H) * (H * H) + cross H a b * H + a % H * (b % H) := by
    conv_lhs => rw [← Nat.div_add_mod' a H, ← Nat.div_add_mod' b H]
    rw [ht]
    ring
  have hhigh : a * b = (a / H * (b / H) + cross H a b / H +
      carry ((a % H * (b % H) + cross H a b * H % (H * H)) % (H * H))
        (cross H a b * H % (H * H))) * (H * H) +
      (a % H * (b % H) + cross H a b * H % (H * H)) % (H * H) := by
    linarith
  refine ⟨?_, Nat.mod_lt _ hW⟩
  have hlt : a / H * (b / H) + cross H a b / H +
      carry ((a % H * (b % H) + cross H a b * H % (H * H)) % (H * H))
        (cross H a b * H % (H * H)) < H * H := by
    have hab : a * b < H * H * (H * H) := Nat.mul_lt_mul'' ha hb
    rw [hhigh] at hab
    exact lt_of_mul_lt_mul_right (lt_of_le_of_lt (Nat.le_add_right _ _) hab) (Nat.zero_le _)
  simp only [mulWide]
  rw [Nat.mod_eq_of_lt hlt]
  exact hhigh.symm

end product

/-! ## Quotients -/

section quotient
variable (W c low : ℕ)

/-- The bit `i` of `low` is shifted into the remainder, and the quotient is doubled. -/
def divStep (i : ℕ) (s : ℕ × ℕ) : ℕ × ℕ :=
  let remainder := (s.1 + s.1 + low / 2 ^ i % 2) % W
  let quotient := (s.2 + s.2) % W
  if c ≤ remainder then (remainder - c, (quotient + 1) % W) else (remainder, quotient)

/-- The bits from `n - 1` down to `0`. -/
def divLoop : ℕ → ℕ × ℕ → ℕ × ℕ
  | 0, s => s
  | i + 1, s => divLoop i (divStep W c low i s)

variable {W c low}

/-- A step of the division, where the remainder is below the divisor. -/
theorem divStep_eq {i : ℕ} {s : ℕ × ℕ} (hc : 2 * c ≤ W) (hs : s.1 < c) :
    divStep W c low i s =
      if c ≤ 2 * s.1 + low / 2 ^ i % 2 then
        (2 * s.1 + low / 2 ^ i % 2 - c, (2 * s.2 + 1) % W)
      else (2 * s.1 + low / 2 ^ i % 2, 2 * s.2 % W) := by
  have hbit := Nat.mod_lt (low / 2 ^ i) (by decide : 0 < 2)
  have hrem : (2 * s.1 + low / 2 ^ i % 2) % W = 2 * s.1 + low / 2 ^ i % 2 :=
    Nat.mod_eq_of_lt (by omega)
  simp only [divStep, ← Nat.two_mul, hrem, Nat.mod_add_mod]

/-- **The division of a double word**: what is in the quotient before the loop is shifted out of
it, and the rest is the quotient. -/
theorem divLoop_eq (hc : 2 * c ≤ W) (n : ℕ) {s : ℕ × ℕ} (hs : s.1 < c) (hq : s.2 < W) :
    divLoop W c low n s =
      ((s.1 * 2 ^ n + low % 2 ^ n) % c,
        (s.2 * 2 ^ n + (s.1 * 2 ^ n + low % 2 ^ n) / c) % W) := by
  induction n generalizing s with
  | zero =>
    simp [divLoop, Nat.mod_one, Nat.mod_eq_of_lt hs, Nat.div_eq_of_lt hs, Nat.mod_eq_of_lt hq]
  | succ n ih =>
    have hbit := Nat.mod_lt (low / 2 ^ n) (by decide : 0 < 2)
    have hW : 0 < W := by omega
    have hvalue : s.1 * 2 ^ (n + 1) + low % 2 ^ (n + 1) =
        (2 * s.1 + low / 2 ^ n % 2) * 2 ^ n + low % 2 ^ n := by
      rw [Nat.mod_pow_succ]
      ring
    rw [divLoop, divStep_eq hc hs, hvalue]
    split_ifs with hle
    · -- the divisor is subtracted, which counts `2 ^ n` in the quotient
      have hsub : (2 * s.1 + low / 2 ^ n % 2) * 2 ^ n + low % 2 ^ n =
          (2 * s.1 + low / 2 ^ n % 2 - c) * 2 ^ n + low % 2 ^ n + 2 ^ n * c := by
        conv_lhs => rw [← Nat.sub_add_cancel hle]
        ring
      rw [ih (by dsimp only; omega) (Nat.mod_lt _ hW), hsub, Nat.add_mul_mod_self_right,
        Nat.add_mul_div_right _ _ (by omega)]
      refine Prod.ext rfl ?_
      dsimp only
      rw [Nat.add_mod, Nat.mod_mul_mod, ← Nat.add_mod]
      congr 1
      ring
    · rw [ih (by dsimp only; omega) (Nat.mod_lt _ hW)]
      refine Prod.ext rfl ?_
      dsimp only
      rw [Nat.add_mod, Nat.mod_mul_mod, ← Nat.add_mod]
      congr 1
      ring

end quotient

/-- **A product, a sum and a quotient**: the quotient is exact where it is a word, although the
product is not. -/
theorem mul_add_div {H W n a b c r : ℕ} (hW : H * H = W) (hn : 2 ^ n = W) (ha : a < W) (hb : b < W)
    (hcross : a % H * (b / H) + a / H * (b % H) < W) (hc : 2 * c ≤ W) (hr : r < c)
    (hq : (a * b + r) / c < W) :
    (divLoop W c (((mulWide H a b).2 + r) % W) n
      (((mulWide H a b).1 + carry (((mulWide H a b).2 + r) % W) r) % W, cross H a b)).2 =
        (a * b + r) / c := by
  subst hW
  rcases mulWide_eq ha hb hcross with ⟨hproduct, hlow⟩
  have hcarry := carry_eq hlow (by omega : r < H * H)
  set low := ((mulWide H a b).2 + r) % (H * H)
  have hpos : 0 < H * H := by omega
  have hlow' : low < H * H := Nat.mod_lt _ hpos
  have hsum : ((mulWide H a b).1 + carry low r) * (H * H) + low = a * b + r := by
    rw [← hproduct, Nat.add_mul]
    omega
  have hhigh : (mulWide H a b).1 + carry low r < c := by
    have hlt : a * b + r < H * H * c := (Nat.div_lt_iff_lt_mul (by omega)).1 hq
    rw [← hsum, Nat.mul_comm (H * H)] at hlt
    exact lt_of_mul_lt_mul_right (lt_of_le_of_lt (Nat.le_add_right _ _) hlt) (Nat.zero_le _)
  have hcross' : cross H a b < H * H := Nat.mod_lt _ hpos
  have hword : (mulWide H a b).1 + carry low r < H * H := hhigh.trans (by omega)
  rw [Nat.mod_eq_of_lt hword, divLoop_eq hc n hhigh hcross', hn,
    Nat.mod_eq_of_lt hlow', hsum, Nat.mul_comm (cross H a b),
    Nat.mul_add_mod, Nat.mod_eq_of_lt hq]
end AudioCrash.DoubleWord
