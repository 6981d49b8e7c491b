import AudioCrash.Lib.DoubleWord
import AudioCrash.Lib.Rounding

/-!
# Rescaling of time stamps

`av_rescale_rnd` computes `a * b / c` in one of five roundings. A negative `a` is turned into a
positive one, and the direction of the rounding with it. Where `b` and `c` are small, 64-bit
products suffice, or a quotient is taken out first; else the product is a double word that is
divided one bit at a time.

## Main definitions

* `avRescaleRnd`, `avRescaleQ` — the functions, with the wrapping of the unsigned operations.
* `rescaleNonneg_eq` — the three ways to compute a quotient give the same.
* `avRescaleRnd_eq` — the result is the rounded quotient, or tells that it is too large.
-/

namespace AudioCrash.Time

open DoubleWord

/-! ## The functions -/

/-- `INT_MAX`. -/
def intMax : ℕ := 2 ^ 31 - 1

/-- `INT64_MAX`. -/
def int64Max : ℤ := 2 ^ 63 - 1

/-- `INT64_MIN`. -/
def int64Min : ℤ := -2 ^ 63

/-- `AV_ROUND_PASS_MINMAX`. -/
def passMinmax : UInt32 := 8192

/-- `enum AVRounding`. -/
def avRounding : Rounding → UInt32
  | .zero => 0
  | .inf => 1
  | .down => 2
  | .up => 3
  | .nearInf => 5

/-- What is added before the division. -/
def rescaleBias (c : ℕ) (rnd : UInt32) : ℕ :=
  if rnd = 5 then c / 2 else if rnd &&& 1 ≠ 0 then c - 1 else 0

/-- The product is a double word. -/
def rescaleWide (a b c r : ℕ) : ℤ :=
  let product := mulWide (2 ^ 32) a b
  let low := (product.2 + r) % 2 ^ 64
  let high := (product.1 + carry low r) % 2 ^ 64
  let t1 := (divLoop (2 ^ 64) c low 64 (high, cross (2 ^ 32) a b)).2
  if int64Max < t1 then int64Min else t1

/-- `av_rescale_rnd` for an `a` that is not negative, and arguments that have been checked. -/
def rescaleNonneg (a b c : ℕ) (rnd : UInt32) : ℤ :=
  let r := rescaleBias c rnd
  if b ≤ intMax ∧ c ≤ intMax then
    if a ≤ intMax then ((a * b + r) / c : ℕ)
    else
      let ad := a / c
      let a2 := (a % c * b + r) / c
      if intMax ≤ ad ∧ b ≠ 0 ∧ (2 ^ 63 - 1 - a2) / b < ad then int64Min
      else (ad * b + a2 : ℕ)
  else rescaleWide a b c r

/-- The arguments are refused. -/
def refused (b c : ℤ) (rnd : UInt32) : Bool :=
  c ≤ 0 || b < 0 || !(rnd &&& ~~~passMinmax ≤ 5 && rnd &&& ~~~passMinmax ≠ 4)

/-- `av_rescale_rnd`. The call for the opposite of a negative `a` passes the checks again. -/
def avRescaleRnd (a b c : ℤ) (rnd : UInt32) : ℤ :=
  if refused b c rnd then int64Min
  else if rnd &&& passMinmax ≠ 0 ∧ (a = int64Min ∨ a = int64Max) then a
  else
    let rnd := if rnd &&& passMinmax ≠ 0 then rnd - passMinmax else rnd
    if a < 0 then
      -- `-(uint64_t)`
      (-rescaleNonneg (-max a (-int64Max)).toNat b.toNat c.toNat
        (rnd ^^^ ((rnd >>> 1) &&& 1))).bmod (2 ^ 64)
    else rescaleNonneg a.toNat b.toNat c.toNat rnd

/-- `AVRational`. -/
structure AVRational where
  num : ℤ
  den : ℤ
  deriving DecidableEq, Repr

/-- `av_rescale_q_rnd`. -/
def avRescaleQRnd (a : ℤ) (bq cq : AVRational) (rnd : UInt32) : ℤ :=
  avRescaleRnd a (bq.num * cq.den) (cq.num * bq.den) rnd

/-- `av_rescale_q`. -/
def avRescaleQ (a : ℤ) (bq cq : AVRational) : ℤ := avRescaleQRnd a bq cq (avRounding .nearInf)

/-! ## Numbers that are not negative -/

theorem rescaleBias_avRounding (m : Rounding) (c : ℕ) :
    rescaleBias c (avRounding m) = m.bias c := by
  cases m <;> rfl

theorem bias_lt (m : Rounding) {c : ℕ} (hc : 0 < c) : m.bias c < c := by
  cases m <;> simp only [Rounding.bias] <;> omega

section nonneg
variable {a b c r : ℕ}

/-- The cross products of two words below `2 ^ 63` are together a word. -/
theorem cross_lt (ha : a < 2 ^ 63) (hb : b < 2 ^ 63) :
    a % 2 ^ 32 * (b / 2 ^ 32) + a / 2 ^ 32 * (b % 2 ^ 32) < 2 ^ 64 := by
  have ha1 : a / 2 ^ 32 ≤ 2 ^ 31 - 1 := by omega
  have hb1 : b / 2 ^ 32 ≤ 2 ^ 31 - 1 := by omega
  have ha0 : a % 2 ^ 32 ≤ 2 ^ 32 - 1 := by omega
  have hb0 : b % 2 ^ 32 ≤ 2 ^ 32 - 1 := by omega
  have hleft := Nat.mul_le_mul ha0 hb1
  have hright := Nat.mul_le_mul ha1 hb0
  omega

/-- **The double word path** gives the quotient where it is a word. -/
theorem rescaleWide_eq (ha : a < 2 ^ 63) (hb : b < 2 ^ 63) (hc : 0 < c) (hc' : c < 2 ^ 63)
    (hr : r < c) (hq : (a * b + r) / c < 2 ^ 64) :
    rescaleWide a b c r =
      if (a * b + r) / c < 2 ^ 63 then (((a * b + r) / c : ℕ) : ℤ) else int64Min := by
  have hquotient := mul_add_div (H := 2 ^ 32) (W := 2 ^ 64) (n := 64) (by norm_num) rfl
    (ha.trans (by norm_num)) (hb.trans (by norm_num)) (cross_lt ha hb) (by omega) hr hq
  simp only [rescaleWide, hquotient, int64Max]
  split_ifs <;> omega

/-- The quotient of `a` and `c` may be taken out first. -/
theorem quotient_split (hc : 0 < c) :
    a / c * b + (a % c * b + r) / c = (a * b + r) / c := by
  have hsplit : a * b + r = c * (a / c * b) + (a % c * b + r) := by
    conv_lhs => rw [← Nat.div_add_mod a c]
    ring
  rw [hsplit, Nat.mul_add_div hc]

/-- With small factors the sum that is divided does not overflow. -/
theorem mul_add_lt (ha : a ≤ intMax) (hb : b ≤ intMax) (hr : r < c) (hc : c ≤ intMax) :
    a * b + r < 2 ^ 63 := by
  have hproduct := Nat.mul_le_mul ha hb
  simp only [intMax] at *
  omega

/-- The quotient that is taken out is tested for an overflow, which it tells exactly. -/
theorem tooLarge_iff (hb : b ≤ intMax) (hc : 0 < c) (hc' : c ≤ intMax) (hr : r < c) :
    (intMax ≤ a / c ∧ b ≠ 0 ∧ (2 ^ 63 - 1 - (a % c * b + r) / c) / b < a / c) ↔
      2 ^ 63 ≤ (a * b + r) / c := by
  have hrest : (a % c * b + r) / c ≤ b := by
    have hle : a % c * b ≤ (c - 1) * b := Nat.mul_le_mul_right b (by have := Nat.mod_lt a hc; omega)
    have hlt : a % c * b + r < c * (b + 1) := by
      have hexpand : c * (b + 1) = (c - 1) * b + b + c := by
        obtain ⟨c, rfl⟩ := Nat.exists_eq_succ_of_ne_zero hc.ne'
        simp only [Nat.succ_eq_add_one, Nat.add_sub_cancel]
        ring
      omega
    exact Nat.le_of_lt_succ (Nat.div_lt_of_lt_mul hlt)
  rw [← quotient_split (a := a) hc]
  set ad := a / c
  set a2 := (a % c * b + r) / c
  simp only [intMax] at *
  constructor
  · rintro ⟨-, hb0, hlarge⟩
    have hmul := (Nat.div_lt_iff_lt_mul (Nat.pos_of_ne_zero hb0)).1 hlarge
    omega
  · intro hlarge
    have hb0 : b ≠ 0 := by
      rintro rfl
      omega
    refine ⟨?_, hb0, (Nat.div_lt_iff_lt_mul (Nat.pos_of_ne_zero hb0)).2 (by omega)⟩
    by_contra hshort
    have hproduct : ad * b ≤ (2 ^ 31 - 2) * (2 ^ 31 - 1) := Nat.mul_le_mul (by omega) hb
    omega

/-- **The three paths** give the quotient where it is an `int64_t`. -/
theorem rescaleNonneg_eq (m : Rounding) (ha : a < 2 ^ 63) (hb : b < 2 ^ 63) (hc : 0 < c)
    (hc' : c < 2 ^ 63) (hq : (a * b + m.bias c) / c < 2 ^ 64) :
    rescaleNonneg a b c (avRounding m) =
      if (a * b + m.bias c) / c < 2 ^ 63 then (((a * b + m.bias c) / c : ℕ) : ℤ)
      else int64Min := by
  have hbias := bias_lt m hc
  simp only [rescaleNonneg, rescaleBias_avRounding]
  by_cases hsmall : b ≤ intMax ∧ c ≤ intMax
  · rw [if_pos hsmall]
    by_cases hshort : a ≤ intMax
    · have hlt := mul_add_lt hshort hsmall.1 hbias hsmall.2
      rw [if_pos hshort, if_pos (lt_of_le_of_lt (Nat.div_le_self _ _) hlt)]
    · rw [if_neg hshort]
      by_cases hlarge : 2 ^ 63 ≤ (a * b + m.bias c) / c
      · rw [if_pos ((tooLarge_iff hsmall.1 hc hsmall.2 hbias).2 hlarge), if_neg (not_lt.2 hlarge)]
      · rw [if_neg (fun h => hlarge ((tooLarge_iff hsmall.1 hc hsmall.2 hbias).1 h)),
          if_pos (not_le.1 hlarge), quotient_split hc]
  · rw [if_neg hsmall]
    exact rescaleWide_eq ha hb hc hc' hbias hq

end nonneg

/-! ## Numbers of either sign -/

section sign
variable (m : Rounding) {a b c : ℤ}

theorem not_refused (hb : 0 ≤ b) (hc : 0 < c) : refused b c (avRounding m) = false := by
  have hmode : (avRounding m &&& ~~~passMinmax ≤ 5 &&
      avRounding m &&& ~~~passMinmax ≠ 4) = true := by
    cases m <;> decide
  simp only [refused, hmode, Bool.not_true, Bool.or_false, Bool.or_eq_false_iff,
    decide_eq_false_iff_not, not_le, not_lt]
  exact ⟨hc, hb⟩

theorem avRounding_pass : avRounding m &&& passMinmax = 0 := by
  cases m <;> decide

/-- The direction is turned around with the sign. -/
theorem avRounding_flip :
    avRounding m ^^^ ((avRounding m >>> 1) &&& 1) = avRounding m.flip := by
  cases m <;> decide

theorem avRescaleRnd_of_nonneg (ha : 0 ≤ a) (hb : 0 ≤ b) (hc : 0 < c) :
    avRescaleRnd a b c (avRounding m) =
      rescaleNonneg a.toNat b.toNat c.toNat (avRounding m) := by
  simp [avRescaleRnd, not_refused m hb hc, avRounding_pass, not_lt.2 ha]

theorem avRescaleRnd_of_neg (ha : a < 0) (ha' : -int64Max ≤ a) (hb : 0 ≤ b) (hc : 0 < c) :
    avRescaleRnd a b c (avRounding m) =
      (-rescaleNonneg (-a).toNat b.toNat c.toNat (avRounding m.flip)).bmod (2 ^ 64) := by
  simp [avRescaleRnd, not_refused m hb hc, avRounding_pass, ha, avRounding_flip,
    max_eq_left ha']

/-- A number that fits is negated without an overflow. -/
theorem neg_bmod {q : ℕ} (h : q < 2 ^ 63) : (-(q : ℤ)).bmod (2 ^ 64) = -q := by
  rw [Int.bmod_def]
  split_ifs <;> omega

/-- **The result is the rounded quotient**, or the least number where that is too large. -/
theorem avRescaleRnd_eq (ha : |a| ≤ int64Max) (hb : 0 ≤ b) (hb' : b ≤ int64Max) (hc : 0 < c)
    (hc' : c ≤ int64Max) (hq : |m.apply ((a : ℚ) * b / c)| < 2 ^ 64) :
    avRescaleRnd a b c (avRounding m) =
      if |m.apply ((a : ℚ) * b / c)| ≤ int64Max then m.apply ((a : ℚ) * b / c)
      else int64Min := by
  have hmax : int64Max = 2 ^ 63 - 1 := rfl
  have ha' := abs_le.1 ha
  lift b to ℕ using hb
  lift c to ℕ using hc.le
  have hc0 : 0 < c := by exact_mod_cast hc
  rcases lt_or_ge a 0 with hneg | hpos
  · obtain ⟨n, rfl⟩ : ∃ n : ℕ, a = -n := ⟨a.natAbs, by omega⟩
    have hquotient : ((-(n : ℤ) : ℤ) : ℚ) * (b : ℤ) / (c : ℤ) = -(((n * b : ℕ) : ℚ) / c) := by
      push_cast
      ring
    rw [hquotient, Rounding.apply_neg, Rounding.apply_div _ hc0, abs_neg, Nat.abs_cast] at hq ⊢
    have hnonneg := rescaleNonneg_eq (a := n) (b := b) m.flip (by omega) (by omega) hc0 (by omega)
      (by exact_mod_cast hq)
    rw [avRescaleRnd_of_neg m hneg (by omega) (by omega) hc, neg_neg,
      Int.toNat_natCast, Int.toNat_natCast, Int.toNat_natCast, hnonneg]
    rcases Nat.lt_or_ge ((n * b + m.flip.bias c) / c) (2 ^ 63) with hlt | hge
    · rw [if_pos hlt, if_pos (by omega), neg_bmod hlt]
    · rw [if_neg (not_lt.2 hge), if_neg (by omega)]
      decide
  · lift a to ℕ using hpos
    have hquotient : ((a : ℤ) : ℚ) * (b : ℤ) / (c : ℤ) = ((a * b : ℕ) : ℚ) / c := by
      push_cast
      ring
    rw [hquotient, Rounding.apply_div _ hc0, Nat.abs_cast] at hq ⊢
    rw [avRescaleRnd_of_nonneg m (by omega) (by omega) hc, Int.toNat_natCast, Int.toNat_natCast,
      Int.toNat_natCast, rescaleNonneg_eq m (by omega) (by omega) hc0 (by omega)
        (by exact_mod_cast hq)]
    split_ifs <;> omega

end sign

/-- A negative number, with a product that takes a double word. -/
theorem avRescaleRnd_eq_wide :
    avRescaleRnd (-10 ^ 18) (10 ^ 10) (3 * 10 ^ 9) (avRounding .nearInf) =
      -3333333333333333333 := by
  have hvalue : Rounding.nearInf.apply
      (((-10 ^ 18 : ℤ) : ℚ) * (10 ^ 10 : ℤ) / (3 * 10 ^ 9 : ℤ)) = -3333333333333333333 := by
    norm_num [Rounding.apply]
  have hrescale := avRescaleRnd_eq .nearInf (a := -10 ^ 18) (b := 10 ^ 10) (c := 3 * 10 ^ 9)
    (by decide) (by decide) (by decide) (by decide) (by decide) (by rw [hvalue]; decide)
  rw [hvalue] at hrescale
  exact hrescale

end AudioCrash.Time
