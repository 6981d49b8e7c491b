import AudioCrash.Audio.Histogram
import Mathlib.Algebra.BigOperators.Ring.Finset
import Mathlib.Algebra.Order.BigOperators.Group.Multiset

/-!
# The arithmetic of print_stats

The histogram has 0x10001 counters, and the loops of `print_stats` go over the first 0x10000.
The counters are shifted right so that the total fits 34 bits. The two sums then fit 64 bits,
and the sum with the rounding term does unless nearly the whole total lies in the counter of
the most negative value.

## Main definitions

* `CountsAll`, `countsAll_iff` — for which frames every sample is taken into account.
* `kept`, `shortfall` — the exact values.
* `NoWrap`, `NearlyFull`, `noWrap_iff` — for which histograms no operation wraps.
* `keptTotal_pos`, `printStats_of_pos` — the early returns after the first are not reached.
-/

namespace AudioCrash.Audio

open Counters Finset

/-! ## The loops -/

section loops
variable (n : ℕ) (histogram : ℕ → UInt64)

/-- The counter `i`, shifted. -/
def shifted (i : ℕ) : UInt64 := histogram i >>> UInt64.ofNat (Stats.upTo n histogram).shift

theorem Stats.upTo_nbSamples : (Stats.upTo n histogram).nbSamples = wordSum histogram n := rfl

theorem Stats.upTo_shift :
    (Stats.upTo n histogram).shift = avLog2 ((Stats.upTo n histogram).nbSamples >>> 33) := rfl

theorem Stats.upTo_nbSamplesShift :
    (Stats.upTo n histogram).nbSamplesShift = wordSum (shifted n histogram) n :=
  congrArg Prod.fst (forLoop_wordSum (shifted n histogram)
    (fun i => UInt64.ofNat (square i) * shifted n histogram i) n)

theorem Stats.upTo_power :
    (Stats.upTo n histogram).power =
      wordSum (fun i => UInt64.ofNat (square i) * shifted n histogram i) n :=
  congrArg Prod.snd (forLoop_wordSum (shifted n histogram)
    (fun i => UInt64.ofNat (square i) * shifted n histogram i) n)

end loops

theorem square_le {i : ℕ} (hi : i ≤ 0x10000) : square i ≤ 2 ^ 30 := by
  have hle : ((i : ℤ) - 0x8000) * (i - 0x8000) ≤ 2 ^ 30 := by nlinarith
  simp only [square]
  omega

theorem toNat_square {i : ℕ} (hi : i ≤ 0x10000) : (UInt64.ofNat (square i)).toNat = square i := by
  have hle := square_le hi
  rw [UInt64.toNat_ofNat', Nat.mod_eq_of_lt (by omega)]

/-! ## The exact values -/

section exact
variable (n : ℕ) (histogram : ℕ → UInt64)

/-- The total of the first `n` counters. -/
def total : ℕ := ∑ i ∈ range n, (histogram i).toNat

/-- The shift that makes the total fit 34 bits. -/
def exactShift : ℕ := Nat.log2 (total n histogram / 2 ^ 33)

/-- The counter `i`, shifted. -/
def kept (i : ℕ) : ℕ := (histogram i).toNat / 2 ^ exactShift n histogram

/-- The total of the shifted counters. -/
def keptTotal : ℕ := ∑ i ∈ range n, kept n histogram i

/-- The sum of the squares, weighted by the shifted counters. -/
def keptPower : ℕ := ∑ i ∈ range n, square i * kept n histogram i

/-- How far the shifted counters are from a total of `2 ^ 34` in the counter 0. -/
def shortfall : ℕ :=
  2 ^ 30 * (2 ^ 34 - keptTotal n histogram) +
    ∑ i ∈ range n, (2 ^ 30 - square i) * kept n histogram i

theorem total_lt_exactShift : total n histogram < 2 ^ 34 * 2 ^ exactShift n histogram := by
  have hlog : total n histogram / 2 ^ 33 < 2 ^ (exactShift n histogram + 1) := Nat.lt_log2_self
  rw [Nat.div_lt_iff_lt_mul (by decide), pow_succ] at hlog
  omega

/-- A total of 64 bits is shifted to 34 bits. -/
theorem keptTotal_lt : keptTotal n histogram < 2 ^ 34 := by
  have hmul : keptTotal n histogram * 2 ^ exactShift n histogram ≤ total n histogram := by
    rw [keptTotal, sum_mul]
    exact sum_le_sum fun i _ => Nat.div_mul_le_self _ _
  exact lt_of_mul_lt_mul_right (hmul.trans_lt (total_lt_exactShift n histogram)) (Nat.zero_le _)

theorem kept_le {i : ℕ} (hi : i < n) : kept n histogram i ≤ keptTotal n histogram :=
  single_le_sum (f := kept n histogram) (fun _ _ => Nat.zero_le _) (mem_range.2 hi)

variable {n}

/-- The squares are at most `2 ^ 30`, and the shortfall is what is missing. -/
theorem keptPower_add (hn : n ≤ 0x10000) :
    keptPower n histogram + shortfall n histogram = 2 ^ 64 := by
  have hlt := keptTotal_lt n histogram
  have hsum : keptPower n histogram + ∑ i ∈ range n, (2 ^ 30 - square i) * kept n histogram i =
      2 ^ 30 * keptTotal n histogram := by
    rw [keptPower, keptTotal, ← sum_add_distrib, mul_sum]
    refine sum_congr rfl fun i hi => ?_
    have hsquare : square i ≤ 2 ^ 30 := square_le ((mem_range.1 hi).le.trans hn)
    rw [← Nat.add_mul, Nat.add_sub_cancel' hsquare]
  rw [shortfall]
  omega

variable (hlt : total n histogram < 2 ^ 64)
include hlt

theorem toNat_nbSamples_of_lt {m : ℕ} (hm : m ≤ n) :
    (wordSum histogram m).toNat = ∑ i ∈ range m, (histogram i).toNat :=
  toNat_wordSum_of_lt _ ((sum_le_sum_of_subset (range_mono hm)).trans_lt hlt)

theorem upTo_shift_eq : (Stats.upTo n histogram).shift = exactShift n histogram := by
  rw [Stats.upTo_shift, avLog2, Stats.upTo_nbSamples, UInt64.toNat_shiftRight,
    toNat_nbSamples_of_lt histogram hlt le_rfl, Nat.shiftRight_eq_div_pow]
  rfl

theorem exactShift_lt : exactShift n histogram < 64 := by
  by_contra hle
  have hne : total n histogram / 2 ^ 33 ≠ 0 := by
    intro hzero
    rw [exactShift, hzero] at hle
    exact hle (by decide)
  have hpow : 2 ^ exactShift n histogram ≤ total n histogram / 2 ^ 33 := Nat.log2_self_le hne
  have hmono : 2 ^ 64 ≤ 2 ^ exactShift n histogram := Nat.pow_le_pow_right (by decide) (by omega)
  omega

theorem toNat_shifted (i : ℕ) : (shifted n histogram i).toNat = kept n histogram i := by
  have hshift := exactShift_lt histogram hlt
  rw [shifted, upTo_shift_eq histogram hlt, UInt64.toNat_shiftRight, UInt64.toNat_ofNat',
    Nat.mod_eq_of_lt (a := exactShift n histogram) (by omega), Nat.mod_eq_of_lt hshift,
    Nat.shiftRight_eq_div_pow, kept]

theorem toNat_nbSamplesShift {m : ℕ} (hm : m ≤ n) :
    (wordSum (shifted n histogram) m).toNat = ∑ i ∈ range m, kept n histogram i := by
  have hsum := sum_congr rfl fun i (_ : i ∈ range m) => toNat_shifted histogram hlt i
  have hle : ∑ i ∈ range m, kept n histogram i ≤ keptTotal n histogram :=
    sum_le_sum_of_subset (range_mono hm)
  have hkept := keptTotal_lt n histogram
  have hexact : ∑ i ∈ range m, (shifted n histogram i).toNat < 2 ^ 64 := by
    rw [hsum]
    exact hle.trans_lt (by omega)
  rw [toNat_wordSum_of_lt _ hexact, hsum]

theorem toNat_product (hn : n ≤ 0x10000) {i : ℕ} (hi : i < n) :
    (UInt64.ofNat (square i) * shifted n histogram i).toNat = square i * kept n histogram i := by
  have hkept := (kept_le n histogram hi).trans_lt (keptTotal_lt n histogram)
  have hmul : square i * kept n histogram i < 2 ^ 64 :=
    (Nat.mul_lt_mul_of_le_of_lt (square_le (hi.le.trans hn)) hkept (by decide)).trans_le
      (by decide)
  rw [UInt64.toNat_mul, toNat_square (hi.le.trans hn), toNat_shifted histogram hlt,
    Nat.mod_eq_of_lt hmul]

theorem toNat_power (hn : n ≤ 0x10000) {m : ℕ} (hm : m ≤ n) :
    (wordSum (fun i => UInt64.ofNat (square i) * shifted n histogram i) m).toNat =
      ∑ i ∈ range m, square i * kept n histogram i := by
  have hsum := sum_congr rfl fun i (hi : i ∈ range m) =>
    toNat_product histogram hlt hn ((mem_range.1 hi).trans_le hm)
  have hle : ∑ i ∈ range m, square i * kept n histogram i ≤ keptPower n histogram :=
    sum_le_sum_of_subset (range_mono hm)
  have hadd := keptPower_add histogram hn
  have hpos : 0 < shortfall n histogram := by
    have hkept := keptTotal_lt n histogram
    rw [shortfall]
    omega
  rw [toNat_wordSum_of_lt _ (by omega), hsum]

end exact

/-! ## Every sample is taken into account -/

theorem square_bin (cast : IntCast) (x : ℚ) :
    (square (bin cast x) : ℤ) = quantize cast x ^ 2 := by
  have hle := le_quantize cast x
  have hcast : ((bin cast x : ℕ) : ℤ) - 0x8000 = quantize cast x := by
    simp only [bin]
    omega
  rw [square, hcast, Int.toNat_of_nonneg (mul_self_nonneg _), sq]

/-- The value of a sample, as an integer of 16 bits and a sign. -/
def quantized (x : ℚ) : ℤ := max (min (truncate (x * 0x8000)) 0x8000) (-0x8000)

section quantized
variable (cast : IntCast) {x : ℚ}

theorem quantize_of_fits (hx : FitsInt (x * 0x8000)) : quantize cast x = quantized x := by
  rw [quantize, cast.of_fits _ hx, quantized]

/-- A value that an `int` does not hold is beyond the full scale. -/
theorem quantized_sq_of_not_fits (hx : ¬ FitsInt (x * 0x8000)) : quantized x ^ 2 = 2 ^ 30 := by
  have hfull : quantized x = 0x8000 ∨ quantized x = -0x8000 := by
    unfold FitsInt at hx
    simp only [quantized]
    omega
  rcases hfull with hfull | hfull
  · rw [hfull]
    norm_num
  · rw [hfull]
    norm_num

/-- No square is too large. -/
theorem quantize_sq_le (x : ℚ) : quantize cast x ^ 2 ≤ quantized x ^ 2 := by
  by_cases hx : FitsInt (x * 0x8000)
  · rw [quantize_of_fits cast hx]
  · have hlow := le_quantize cast x
    have hhigh := quantize_le cast x
    rw [quantized_sq_of_not_fits hx]
    nlinarith

/-- Below the full scale, the square is right for a value that an `int` holds, and for one that
is converted to the most negative counter. -/
theorem quantize_sq_eq_iff (hx : cast.toInt (x * 0x8000) < 0x8000) :
    quantize cast x ^ 2 = quantized x ^ 2 ↔
      FitsInt (x * 0x8000) ∨ cast.toInt (x * 0x8000) ≤ -0x8000 := by
  by_cases hfits : FitsInt (x * 0x8000)
  · exact iff_of_true (by rw [quantize_of_fits cast hfits]) (Or.inl hfits)
  · have hlow := le_quantize cast x
    rw [quantized_sq_of_not_fits hfits, or_iff_right hfits]
    constructor
    · intro hsq
      by_contra hlt
      have hquantize : quantize cast x = cast.toInt (x * 0x8000) := by
        simp only [quantize]
        omega
      rw [hquantize] at hsq
      nlinarith
    · intro hle
      have hquantize : quantize cast x = -0x8000 := by
        simp only [quantize]
        omega
      rw [hquantize]
      norm_num

end quantized

section countsAll
variable (cast : IntCast) (fmt : SampleFormat) (C : ℕ) (frames : List (AVFrame ℚ))

/-- `nb_samples` is the number of samples of the frames, and while the shift is 0, `power` is
the sum of the squares of their quantised values. -/
def CountsAll : Prop :=
  (Stats.of (histogramOf cast fmt C frames)).nbSamples.toNat = totalSamples frames * C ∧
    ((Stats.of (histogramOf cast fmt C frames)).shift = 0 →
      ((Stats.of (histogramOf cast fmt C frames)).power.toNat : ℤ) =
        ((sampleValues fmt C frames).map fun x => quantized x ^ 2).sum)

/-- The sample is below 1, or the conversion of it, where it is undefined, gives less than the
last counter. -/
def BelowOne (x : ℚ) : Prop :=
  if FitsInt (x * 0x8000) then x < 1 else cast.toInt (x * 0x8000) < 0x8000

/-- The conversion of the sample is defined, or gives the most negative counter. -/
def FullScale (x : ℚ) : Prop :=
  FitsInt (x * 0x8000) ∨ cast.toInt (x * 0x8000) ≤ -0x8000

instance (x : ℚ) : Decidable (BelowOne cast x) := by
  unfold BelowOne
  infer_instance

instance (x : ℚ) : Decidable (FullScale cast x) := inferInstanceAs (Decidable (_ ∨ _))

theorem belowOne_iff (x : ℚ) : BelowOne cast x ↔ bin cast x < 0x10000 := by
  rw [BelowOne]
  split_ifs with hfits
  · rw [bin_lt_iff_of_fits cast hfits]
  · rw [bin_lt_iff]

theorem BelowOne.toInt_lt {x : ℚ} (h : BelowOne cast x) : cast.toInt (x * 0x8000) < 0x8000 :=
  (bin_lt_iff cast x).1 ((belowOne_iff cast x).1 h)

variable {cast fmt C frames}

theorem toNat_histogramOf (h : fmt.IsFloat) (k : ℕ) :
    (histogramOf cast fmt C frames k).toNat =
      (sampleValues fmt C frames).countP (fun x => bin cast x = k) % 2 ^ 64 := by
  rw [histogramOf_apply _ _ _ _ h, UInt64.toNat_ofNat']

/-- The samples that the first loop counts are those before the last counter. -/
theorem toNat_nbSamples (h : fmt.IsFloat) :
    (Stats.of (histogramOf cast fmt C frames)).nbSamples.toNat =
      ((sampleValues fmt C frames).filter fun x => bin cast x < 0x10000).card % 2 ^ 64 := by
  rw [Stats.of, Stats.upTo_nbSamples, toNat_wordSum, ← sum_countP,
    sum_congr rfl fun k _ => toNat_histogramOf h k, ← sum_nat_mod]

/-- The samples are all counted exactly when none is in the last counter. -/
theorem nbSamples_eq_iff (h : fmt.IsFloat) :
    (Stats.of (histogramOf cast fmt C frames)).nbSamples.toNat = totalSamples frames * C ↔
      (∀ x ∈ sampleValues fmt C frames, BelowOne cast x) ∧ totalSamples frames * C < 2 ^ 64 := by
  rw [toNat_nbSamples h, ← card_sampleValues fmt C frames]
  constructor
  · intro hnb
    have hle := Nat.mod_le
      ((sampleValues fmt C frames).filter fun x => bin cast x < 0x10000).card (2 ^ 64)
    have hfilter : (sampleValues fmt C frames).filter (fun x => bin cast x < 0x10000) =
        sampleValues fmt C frames :=
      Multiset.eq_of_le_of_card_le (Multiset.filter_le _ _) (by omega)
    refine ⟨fun x hx => (belowOne_iff cast x).2 (Multiset.filter_eq_self.1 hfilter x hx), ?_⟩
    rw [← hnb]
    exact Nat.mod_lt _ (by decide)
  · rintro ⟨hone, hlt⟩
    have hfilter : (sampleValues fmt C frames).filter (fun x => bin cast x < 0x10000) =
        sampleValues fmt C frames :=
      Multiset.filter_eq_self.2 fun x hx => (belowOne_iff cast x).1 (hone x hx)
    rw [hfilter, Nat.mod_eq_of_lt hlt]

section exactCounts
variable (h : fmt.IsFloat) (hone : ∀ x ∈ sampleValues fmt C frames, BelowOne cast x)
  (hlt : totalSamples frames * C < 2 ^ 64)
include h hlt

/-- With less than `2 ^ 64` samples, the counters are exact. -/
theorem toNat_histogramOf_of_lt (k : ℕ) :
    (histogramOf cast fmt C frames k).toNat =
      (sampleValues fmt C frames).countP fun x => bin cast x = k := by
  rw [← card_sampleValues fmt C frames] at hlt
  rw [toNat_histogramOf h, Nat.mod_eq_of_lt ((Multiset.countP_le_card _ _).trans_lt hlt)]

include hone

theorem total_histogramOf :
    total 0x10000 (histogramOf cast fmt C frames) = totalSamples frames * C := by
  have hfilter : (sampleValues fmt C frames).filter (fun x => bin cast x < 0x10000) =
      sampleValues fmt C frames :=
    Multiset.filter_eq_self.2 fun x hx => (belowOne_iff cast x).1 (hone x hx)
  rw [total, sum_congr rfl fun k _ => toNat_histogramOf_of_lt h hlt k, sum_countP, hfilter,
    card_sampleValues]

/-- The shift is 0 for less than `2 ^ 34` samples. -/
theorem shift_histogramOf_iff :
    (Stats.of (histogramOf cast fmt C frames)).shift = 0 ↔ totalSamples frames * C < 2 ^ 34 := by
  have htotal := total_histogramOf h hone hlt
  rw [Stats.of, upTo_shift_eq _ (htotal ▸ hlt), exactShift, htotal]
  constructor
  · intro hzero
    have hlog : totalSamples frames * C / 2 ^ 33 <
        2 ^ (Nat.log2 (totalSamples frames * C / 2 ^ 33) + 1) := Nat.lt_log2_self
    rw [hzero] at hlog
    omega
  · intro hfew
    have hdiv : totalSamples frames * C / 2 ^ 33 = 0 ∨ totalSamples frames * C / 2 ^ 33 = 1 := by
      omega
    rcases hdiv with hdiv | hdiv
    · rw [hdiv]
      rfl
    · rw [hdiv]
      rfl

/-- Without a shift, the power is the sum of the squares of what is counted. -/
theorem toNat_power_histogramOf (hshift : (Stats.of (histogramOf cast fmt C frames)).shift = 0) :
    ((Stats.of (histogramOf cast fmt C frames)).power.toNat : ℤ) =
      ((sampleValues fmt C frames).map fun x => quantize cast x ^ 2).sum := by
  have htotal : total 0x10000 (histogramOf cast fmt C frames) < 2 ^ 64 :=
    total_histogramOf h hone hlt ▸ hlt
  have hfilter : (sampleValues fmt C frames).filter (fun x => bin cast x < 0x10000) =
      sampleValues fmt C frames :=
    Multiset.filter_eq_self.2 fun x hx => (belowOne_iff cast x).1 (hone x hx)
  have hkept : ∀ k, kept 0x10000 (histogramOf cast fmt C frames) k =
      (sampleValues fmt C frames).countP fun x => bin cast x = k := by
    intro k
    rw [kept, ← upTo_shift_eq _ htotal, ← Stats.of, hshift, toNat_histogramOf_of_lt h hlt,
      pow_zero, Nat.div_one]
  have hpower : (Stats.of (histogramOf cast fmt C frames)).power.toNat =
      ((sampleValues fmt C frames).map fun x => square (bin cast x)).sum := by
    rw [Stats.of, Stats.upTo_power, toNat_power _ htotal le_rfl le_rfl,
      sum_congr rfl fun k _ => congrArg (square k * ·) (hkept k), sum_mul_countP, hfilter]
  rw [hpower, Nat.cast_multiset_sum, Multiset.map_map]
  exact congrArg Multiset.sum (Multiset.map_congr rfl fun x _ => square_bin cast x)

omit h hlt in
/-- As no square is too large, the sum is right only if they all are. -/
theorem sum_quantize_eq_iff :
    ((sampleValues fmt C frames).map fun x => quantize cast x ^ 2).sum =
        ((sampleValues fmt C frames).map fun x => quantized x ^ 2).sum ↔
      ∀ x ∈ sampleValues fmt C frames, FullScale cast x := by
  constructor
  · intro hsum x hx
    have hle : ∀ y ∈ sampleValues fmt C frames, quantize cast y ^ 2 ≤ quantized y ^ 2 :=
      fun y _ => quantize_sq_le cast y
    refine (quantize_sq_eq_iff cast (hone x hx).toInt_lt).1 ?_
    by_contra hne
    have hless := (hle x hx).lt_of_ne hne
    exact absurd hsum (Multiset.sum_lt_sum hle ⟨x, hx, hless⟩).ne
  · intro hall
    refine congrArg Multiset.sum (Multiset.map_congr rfl fun x hx => ?_)
    exact (quantize_sq_eq_iff cast (hone x hx).toInt_lt).2 (hall x hx)

end exactCounts

/-- **Every sample is taken into account exactly when none is 1 or more**, and their number fits
64 bits. Samples that are so large that their conversion is undefined must not get the last
counter; and where the squares are summed, they must get that of the full scale. -/
theorem countsAll_iff (h : fmt.IsFloat) :
    CountsAll cast fmt C frames ↔
      (∀ x ∈ sampleValues fmt C frames, BelowOne cast x) ∧ totalSamples frames * C < 2 ^ 64 ∧
        (totalSamples frames * C < 2 ^ 34 →
          ∀ x ∈ sampleValues fmt C frames, FullScale cast x) := by
  rw [CountsAll, nbSamples_eq_iff h, and_assoc]
  refine and_congr_right fun hone => and_congr_right fun hlt => ?_
  rw [shift_histogramOf_iff h hone hlt]
  refine imp_congr_right fun hfew => ?_
  rw [toNat_power_histogramOf h hone hlt ((shift_histogramOf_iff h hone hlt).2 hfew),
    sum_quantize_eq_iff hone]

end countsAll

/-- A packed mono frame of one sample. -/
def loneSample (x : ℚ) : AVFrame ℚ := ⟨1, fun _ => 0, fun _ => x⟩

/-- One sample below 1, and one so large that its conversion is undefined. -/
theorem countsAll_iff_half : CountsAll .x86 .flt 1 [loneSample (1 / 2), loneSample 65536] :=
  (countsAll_iff (by decide)).2
    ⟨by decide +kernel, by decide, fun _ => by decide +kernel⟩

/-- One sample of full scale: `print_stats` counts none. -/
theorem not_countsAll_one :
    (Stats.of (histogramOf .x86 .flt 1 [loneSample 1])).nbSamples.toNat = 0 ∧
      totalSamples [loneSample 1] * 1 = 1 ∧ ¬ CountsAll .x86 .flt 1 [loneSample 1] := by
  refine ⟨?_, rfl, ?_⟩
  · rw [toNat_nbSamples (by decide)]
    decide +kernel
  · intro hall
    have hone := ((nbSamples_eq_iff (by decide)).1 hall.1).1 1 (by decide +kernel)
    exact absurd hone (by decide +kernel)

/-! ## No operation wraps -/

section noWrap
variable (histogram : ℕ → UInt64)

/-- All operations of `print_stats` give their exact values: the accumulators after every
number of iterations, the products, the sum with the rounding term, and the mean. -/
structure NoWrap : Prop where
  nbSamples : ∀ m ≤ 0x10000,
    (wordSum histogram m).toNat = ∑ i ∈ range m, (histogram i).toNat
  shift : (Stats.of histogram).shift = exactShift 0x10000 histogram
  nbSamplesShift : ∀ m ≤ 0x10000, (wordSum (shifted 0x10000 histogram) m).toNat =
    ∑ i ∈ range m, kept 0x10000 histogram i
  product : ∀ i < 0x10000, (UInt64.ofNat (square i) * shifted 0x10000 histogram i).toNat =
    square i * kept 0x10000 histogram i
  power : ∀ m ≤ 0x10000,
    (wordSum (fun i => UInt64.ofNat (square i) * shifted 0x10000 histogram i) m).toNat =
      ∑ i ∈ range m, square i * kept 0x10000 histogram i
  rounding : ((Stats.of histogram).power + (Stats.of histogram).nbSamplesShift / 2).toNat =
    keptPower 0x10000 histogram + keptTotal 0x10000 histogram / 2
  mean : (Stats.of histogram).mean.toNat =
    (keptPower 0x10000 histogram + keptTotal 0x10000 histogram / 2) / keptTotal 0x10000 histogram

variable {histogram}

/-- The loops visit all counters but the last. -/
theorem total_lt (h : ∑ i ∈ range 0x10001, (histogram i).toNat < 2 ^ 64) :
    total 0x10000 histogram < 2 ^ 64 :=
  (sum_le_sum_of_subset (range_mono (Nat.le_succ _))).trans_lt h

/-- The sums after the loops. -/
theorem toNat_sums (hlt : total 0x10000 histogram < 2 ^ 64) :
    (Stats.of histogram).nbSamplesShift.toNat = keptTotal 0x10000 histogram ∧
      (Stats.of histogram).power.toNat = keptPower 0x10000 histogram := by
  rw [Stats.of, Stats.upTo_nbSamplesShift, Stats.upTo_power]
  exact ⟨toNat_nbSamplesShift histogram hlt le_rfl, toNat_power histogram hlt le_rfl le_rfl⟩

/-- The sum with the rounding term, which may wrap. -/
theorem toNat_rounding (hlt : total 0x10000 histogram < 2 ^ 64) :
    ((Stats.of histogram).power + (Stats.of histogram).nbSamplesShift / 2).toNat =
      (keptPower 0x10000 histogram + keptTotal 0x10000 histogram / 2) % 2 ^ 64 := by
  rw [UInt64.toNat_add, UInt64.toNat_div, (toNat_sums hlt).1, (toNat_sums hlt).2]
  rfl

theorem toNat_mean (hlt : total 0x10000 histogram < 2 ^ 64) :
    (Stats.of histogram).mean.toNat =
      (keptPower 0x10000 histogram + keptTotal 0x10000 histogram / 2) % 2 ^ 64 /
        keptTotal 0x10000 histogram := by
  rw [Stats.mean, UInt64.toNat_div, toNat_rounding hlt, (toNat_sums hlt).1]

theorem NoWrap.lt_shortfall (hlt : total 0x10000 histogram < 2 ^ 64) (h : NoWrap histogram) :
    keptTotal 0x10000 histogram / 2 < shortfall 0x10000 histogram := by
  have hadd := keptPower_add histogram (n := 0x10000) le_rfl
  have hrounding := h.rounding
  rw [toNat_rounding hlt] at hrounding
  have hmod := Nat.mod_lt (keptPower 0x10000 histogram + keptTotal 0x10000 histogram / 2)
    (by decide : 0 < 2 ^ 64)
  omega

theorem noWrap_of_lt_shortfall (hlt : total 0x10000 histogram < 2 ^ 64)
    (h : keptTotal 0x10000 histogram / 2 < shortfall 0x10000 histogram) : NoWrap histogram := by
  have hadd := keptPower_add histogram (n := 0x10000) le_rfl
  have hfits : keptPower 0x10000 histogram + keptTotal 0x10000 histogram / 2 < 2 ^ 64 := by omega
  refine ⟨?_, upTo_shift_eq histogram hlt, ?_, ?_, ?_, ?_, ?_⟩
  · exact fun m hm => toNat_nbSamples_of_lt histogram hlt hm
  · exact fun m hm => toNat_nbSamplesShift histogram hlt hm
  · exact fun i hi => toNat_product histogram hlt le_rfl hi
  · exact fun m hm => toNat_power histogram hlt le_rfl hm
  · rw [toNat_rounding hlt, Nat.mod_eq_of_lt hfits]
  · rw [toNat_mean hlt, Nat.mod_eq_of_lt hfits]

/-- Only the sum with the rounding term can wrap. -/
theorem noWrap_iff_shortfall (hlt : total 0x10000 histogram < 2 ^ 64) :
    NoWrap histogram ↔ keptTotal 0x10000 histogram / 2 < shortfall 0x10000 histogram :=
  ⟨NoWrap.lt_shortfall hlt, noWrap_of_lt_shortfall hlt⟩

end noWrap

/-! ## The histograms for which the sum wraps -/

section full
variable (histogram : ℕ → UInt64)

/-- The whole blocks of `2 ^ k` samples in the counter `i`. -/
def blocks (k i : ℕ) : ℕ := (histogram i).toNat / 2 ^ k

/-- The counters hold all but `d` of `2 ^ 34` blocks of `2 ^ k` samples, nearly all of them in the
counter 0. -/
structure NearlyFull (k d : ℕ) : Prop where
  fits : total 0x10000 histogram < 2 ^ 34 * 2 ^ k
  missing : ∑ i ∈ range 0x10000, blocks histogram k i + d = 2 ^ 34
  cost : ∑ i ∈ range 0x10000, i * (0x10000 - i) * blocks histogram k i + 2 ^ 30 * d +
    (d + 1) / 2 ≤ 2 ^ 33

variable {histogram} {k d : ℕ}

/-- What the square of a counter's value falls short of the greatest. -/
theorem square_add {i : ℕ} (hi : i ≤ 0x10000) : square i + i * (0x10000 - i) = 2 ^ 30 := by
  have hsquare : ((square i : ℕ) : ℤ) = ((i : ℤ) - 0x8000) * (i - 0x8000) :=
    Int.toNat_of_nonneg (mul_self_nonneg _)
  have hcast : ((0x10000 - i : ℕ) : ℤ) = 0x10000 - i := by omega
  zify
  rw [hsquare, hcast]
  ring

theorem shortfall_eq (histogram : ℕ → UInt64) :
    shortfall 0x10000 histogram = 2 ^ 30 * (2 ^ 34 - keptTotal 0x10000 histogram) +
      ∑ i ∈ range 0x10000, i * (0x10000 - i) * kept 0x10000 histogram i := by
  rw [shortfall]
  refine congrArg _ (sum_congr rfl fun i hi => ?_)
  have hadd := square_add (mem_range.1 hi).le
  rw [show 2 ^ 30 - square i = i * (0x10000 - i) by omega]

theorem NearlyFull.bounds (h : NearlyFull histogram k d) : 1 ≤ d ∧ d ≤ 7 := by
  have hmul : (∑ i ∈ range 0x10000, blocks histogram k i) * 2 ^ k ≤ total 0x10000 histogram := by
    rw [sum_mul]
    exact sum_le_sum fun i _ => Nat.div_mul_le_self _ _
  have hlt := lt_of_mul_lt_mul_right (hmul.trans_lt h.fits) (Nat.zero_le _)
  have hmissing := h.missing
  have hcost := h.cost
  omega

/-- The blocks are those of the shift. -/
theorem NearlyFull.exactShift_eq (h : NearlyFull histogram k d) :
    exactShift 0x10000 histogram = k := by
  have hmul : (∑ i ∈ range 0x10000, blocks histogram k i) * 2 ^ k ≤ total 0x10000 histogram := by
    rw [sum_mul]
    exact sum_le_sum fun i _ => Nat.div_mul_le_self _ _
  have hbounds := h.bounds
  have hmissing := h.missing
  have hmany : 2 ^ 33 * 2 ^ k ≤ total 0x10000 histogram :=
    (Nat.mul_le_mul_right _ (by omega)).trans hmul
  have hlow : 2 ^ k ≤ total 0x10000 histogram / 2 ^ 33 := by
    rw [Nat.le_div_iff_mul_le (by decide)]
    omega
  have hhigh : total 0x10000 histogram / 2 ^ 33 < 2 ^ (k + 1) := by
    have hfits := h.fits
    rw [Nat.div_lt_iff_lt_mul (by decide), pow_succ]
    omega
  have hne : total 0x10000 histogram / 2 ^ 33 ≠ 0 := (Nat.two_pow_pos k |>.trans_le hlow).ne'
  rw [exactShift, Nat.log2_eq_iff hne]
  exact ⟨hlow, hhigh⟩

/-- The sum wraps for the histograms that are nearly full. -/
theorem shortfall_le_iff :
    shortfall 0x10000 histogram ≤ keptTotal 0x10000 histogram / 2 ↔
      ∃ k d, NearlyFull histogram k d := by
  have hlt := keptTotal_lt 0x10000 histogram
  rw [shortfall_eq]
  constructor
  · intro hle
    refine ⟨exactShift 0x10000 histogram, 2 ^ 34 - keptTotal 0x10000 histogram,
      total_lt_exactShift 0x10000 histogram, ?_, ?_⟩
    · change keptTotal 0x10000 histogram + _ = _
      omega
    · change ∑ i ∈ range 0x10000, i * (0x10000 - i) * kept 0x10000 histogram i + _ + _ ≤ _
      omega
  · intro hex
    rcases hex with ⟨k, d, h⟩
    have hkept : ∀ i, kept 0x10000 histogram i = blocks histogram k i := by
      intro i
      rw [kept, h.exactShift_eq, blocks]
    have hmissing := h.missing
    have hcost := h.cost
    simp only [keptTotal, hkept]
    omega

/-- Nearly all blocks lie in the counter 0: a block in any other costs at least 65535. -/
theorem NearlyFull.zero (h : NearlyFull histogram k d) :
    2 ^ 34 ≤ blocks histogram k 0 + 114690 := by
  have hcost : ∀ i ∈ range 0xffff, 65535 * blocks histogram k (i + 1) ≤
      (i + 1) * (0x10000 - (i + 1)) * blocks histogram k (i + 1) := by
    intro i hi
    obtain ⟨j, hj⟩ := Nat.exists_eq_add_of_lt (mem_range.1 hi)
    refine Nat.mul_le_mul_right _ ?_
    rw [show 0x10000 - (i + 1) = j + 1 by omega]
    nlinarith [Nat.zero_le (i * j)]
  have hsum := sum_le_sum hcost
  rw [← mul_sum] at hsum
  have hmissing := h.missing
  have hall := h.cost
  have hbounds := h.bounds
  rw [sum_range_succ'] at hmissing hall
  omega

/-- **No operation wraps unless the histogram is nearly full** of samples of the most negative
value: then it holds all but at most seven of `2 ^ 34` blocks, all but 114690 of them in the
counter 0. -/
theorem noWrap_iff (h : ∑ i ∈ range 0x10001, (histogram i).toNat < 2 ^ 64) :
    (NoWrap histogram ↔ ¬ ∃ k d, NearlyFull histogram k d) ∧
      ∀ k d, NearlyFull histogram k d →
        1 ≤ d ∧ d ≤ 7 ∧ 2 ^ 34 ≤ blocks histogram k 0 + 114690 := by
  constructor
  · rw [noWrap_iff_shortfall (total_lt h), ← shortfall_le_iff, not_le]
  · intro k d hfull
    exact ⟨hfull.bounds.1, hfull.bounds.2, hfull.zero⟩

end full


/-! ## All samples in one counter -/

section single
variable (k : ℕ) (v : UInt64)

/-- All samples have one value. -/
def singleBin : ℕ → UInt64 := Function.update (fun _ => 0) k v

theorem sum_singleBin {n : ℕ} (hk : k < n) (g : ℕ → ℕ → ℕ) (hg : ∀ i, g i 0 = 0) :
    ∑ i ∈ range n, g i (singleBin k v i).toNat = g k v.toNat := by
  rw [sum_eq_single_of_mem k (mem_range.2 hk)]
  · simp [singleBin]
  · intro i _ hi
    simp [singleBin, Function.update_of_ne hi, hg]

theorem total_singleBin {n : ℕ} (hk : k < n) : total n (singleBin k v) = v.toNat :=
  sum_singleBin k v hk (fun _ x => x) fun _ => rfl

theorem keptTotal_singleBin {n : ℕ} (hk : k < n) :
    keptTotal n (singleBin k v) = v.toNat / 2 ^ exactShift n (singleBin k v) :=
  sum_singleBin k v hk (fun _ x => x / 2 ^ exactShift n (singleBin k v)) fun _ => Nat.zero_div _

theorem keptPower_singleBin {n : ℕ} (hk : k < n) :
    keptPower n (singleBin k v) =
      square k * (v.toNat / 2 ^ exactShift n (singleBin k v)) :=
  sum_singleBin k v hk (fun i x => square i * (x / 2 ^ exactShift n (singleBin k v)))
    fun i => by simp

/-- Less than `2 ^ 34` samples are not shifted. -/
theorem exactShift_singleBin {n : ℕ} (hk : k < n) (hv : v.toNat < 2 ^ 34) :
    exactShift n (singleBin k v) = 0 := by
  have hdiv : v.toNat / 2 ^ 33 = 0 ∨ v.toNat / 2 ^ 33 = 1 := by omega
  rw [exactShift, total_singleBin k v hk]
  rcases hdiv with hdiv | hdiv
  · rw [hdiv]
    rfl
  · rw [hdiv]
    rfl

/-- The total of less than `2 ^ 34` samples, and their power. -/
theorem kept_singleBin {n : ℕ} (hk : k < n) (hv : v.toNat < 2 ^ 34) :
    keptTotal n (singleBin k v) = v.toNat ∧
      keptPower n (singleBin k v) = square k * v.toNat := by
  rw [keptTotal_singleBin k v hk, keptPower_singleBin k v hk, exactShift_singleBin k v hk hv,
    pow_zero, Nat.div_one]
  exact ⟨rfl, rfl⟩

end single

/-- One sample of value 0. -/
theorem noWrap_iff_zero : NoWrap (singleBin 0x8000 1) := by
  rcases kept_singleBin 0x8000 1 (n := 0x10000) (by decide) (by decide) with ⟨htotal, hpower⟩
  have hadd := keptPower_add (singleBin 0x8000 1) (n := 0x10000) le_rfl
  have hone : (1 : UInt64).toNat = 1 := rfl
  have hsquare : square 0x8000 = 0 := rfl
  refine (noWrap_iff ?_).1.2 ?_
  · rw [sum_singleBin 0x8000 1 (by decide) (fun _ x => x) fun _ => rfl]
    decide
  · rw [← shortfall_le_iff]
    rw [hone] at htotal
    rw [hsquare, zero_mul] at hpower
    omega

/-- As many samples of the most negative value as are not shifted: the sum with the rounding
term wraps, and the mean volume is the least one, in place of that of the mean `2 ^ 30`. -/
theorem not_noWrap_full :
    ∑ i ∈ range 0x10001, (singleBin 0 0x3ffffffff i).toNat = 2 ^ 34 - 1 ∧
      ¬ NoWrap (singleBin 0 0x3ffffffff) ∧
      (Stats.of (singleBin 0 0x3ffffffff)).mean = 0 ∧
      (keptPower 0x10000 (singleBin 0 0x3ffffffff) +
        keptTotal 0x10000 (singleBin 0 0x3ffffffff) / 2) /
          keptTotal 0x10000 (singleBin 0 0x3ffffffff) = 2 ^ 30 := by
  have hcount : (0x3ffffffff : UInt64).toNat = 2 ^ 34 - 1 := rfl
  have hsquare : square 0 = 2 ^ 30 := rfl
  have hsum : ∑ i ∈ range 0x10001, (singleBin 0 0x3ffffffff i).toNat = 2 ^ 34 - 1 := by
    rw [sum_singleBin 0 0x3ffffffff (by decide) (fun _ x => x) fun _ => rfl, hcount]
  have hlt : total 0x10000 (singleBin 0 0x3ffffffff) < 2 ^ 64 := by
    rw [total_singleBin 0 0x3ffffffff (by decide), hcount]
    decide
  rcases kept_singleBin 0 0x3ffffffff (n := 0x10000) (by decide) (by decide) with
    ⟨htotal, hpower⟩
  rw [hcount] at htotal
  rw [hcount, hsquare] at hpower
  refine ⟨hsum, ?_, ?_, ?_⟩
  · intro h
    have hshort := h.lt_shortfall hlt
    have hadd := keptPower_add (singleBin 0 0x3ffffffff) (n := 0x10000) le_rfl
    omega
  · apply UInt64.toNat_inj.1
    rw [toNat_mean hlt, htotal, hpower]
    rfl
  · rw [htotal, hpower]
    rfl

/-! ## The early returns -/

section returns
variable {n : ℕ} {histogram : ℕ → UInt64}

/-- **Some counter is not shifted to nothing**: counters of less than one unit each would make
up a total of less than `2 ^ 16` units, and the shift leaves at least `2 ^ 33`. -/
theorem keptTotal_pos (hn : n ≤ 0x10000) (hpos : 0 < total n histogram) :
    0 < keptTotal n histogram := by
  rw [Nat.pos_iff_ne_zero]
  intro hzero
  have hunit : 0 < 2 ^ exactShift n histogram := Nat.two_pow_pos _
  have hcounter : ∀ i ∈ range n, (histogram i).toNat ≤ 2 ^ exactShift n histogram - 1 := by
    intro i hi
    have hkept : kept n histogram i = 0 := sum_eq_zero_iff.1 hzero i hi
    rw [kept, Nat.div_eq_zero_iff] at hkept
    omega
  have htotal : total n histogram ≤ n * (2 ^ exactShift n histogram - 1) := by
    have hsum := sum_le_card_nsmul (range n) _ _ hcounter
    rwa [card_range, nsmul_eq_mul, Nat.cast_id] at hsum
  by_cases hlow : total n histogram / 2 ^ 33 = 0
  · have hshift : exactShift n histogram = 0 := by
      rw [exactShift, hlow]
      rfl
    rw [hshift, pow_zero, Nat.sub_self, Nat.mul_zero] at htotal
    omega
  · have hpow : 2 ^ exactShift n histogram ≤ total n histogram / 2 ^ 33 := Nat.log2_self_le hlow
    have hunits : 2 ^ exactShift n histogram * 2 ^ 33 ≤ total n histogram :=
      (Nat.le_div_iff_mul_le (by decide)).1 hpow
    have hfew : n * (2 ^ exactShift n histogram - 1) ≤
        0x10000 * (2 ^ exactShift n histogram - 1) := Nat.mul_le_mul_right _ hn
    omega

/-- The mean of the squares, rounded, is at most the greatest square. -/
theorem keptMean_le (hn : n ≤ 0x10000) (hpos : 0 < keptTotal n histogram) :
    (keptPower n histogram + keptTotal n histogram / 2) / keptTotal n histogram ≤ 2 ^ 30 := by
  have hadd := keptPower_add histogram hn
  have hlt := keptTotal_lt n histogram
  have hpower : keptPower n histogram ≤ 2 ^ 30 * keptTotal n histogram := by
    rw [shortfall] at hadd
    omega
  rw [← Nat.lt_succ_iff]
  apply Nat.div_lt_of_lt_mul
  omega

variable (hlt : total 0x10000 histogram < 2 ^ 64)
include hlt

theorem total_pos_iff : 0 < (Stats.of histogram).nbSamples ↔ 0 < total 0x10000 histogram := by
  rw [UInt64.lt_iff_toNat_lt, Stats.of, Stats.upTo_nbSamples,
    toNat_nbSamples_of_lt histogram hlt le_rfl]
  rfl

theorem nbSamplesShift_pos (hpos : 0 < (Stats.of histogram).nbSamples) :
    0 < (Stats.of histogram).nbSamplesShift := by
  have hkept : 0 < keptTotal 0x10000 histogram := keptTotal_pos le_rfl ((total_pos_iff hlt).1 hpos)
  rw [UInt64.lt_iff_toNat_lt, (toNat_sums hlt).1]
  exact hkept

/-- Where the sum with the rounding term wraps, the quotient only gets less. -/
theorem mean_le (hpos : 0 < (Stats.of histogram).nbSamples) :
    (Stats.of histogram).mean ≤ 0x8000 * 0x8000 := by
  have hkept : 0 < keptTotal 0x10000 histogram := keptTotal_pos le_rfl ((total_pos_iff hlt).1 hpos)
  have hwrap : (keptPower 0x10000 histogram + keptTotal 0x10000 histogram / 2) % 2 ^ 64 /
      keptTotal 0x10000 histogram ≤
      (keptPower 0x10000 histogram + keptTotal 0x10000 histogram / 2) /
        keptTotal 0x10000 histogram := Nat.div_le_div_right (Nat.mod_le _ _)
  rw [UInt64.le_iff_toNat_le, toNat_mean hlt]
  exact hwrap.trans (keptMean_le le_rfl hkept)

end returns

/-- **With a sample counted, `print_stats` comes to its last return**: the shifted total is not
zero, and the power after the division is at most the greatest square. -/
theorem printStats_of_pos (log10 : ℚ → ℚ) (histogram : ℕ → UInt64)
    (hlt : total 0x10000 histogram < 2 ^ 64) (hpos : 0 < (Stats.of histogram).nbSamples) :
    0 < (Stats.of histogram).nbSamplesShift ∧ (Stats.of histogram).mean ≤ 0x8000 * 0x8000 ∧
      (Stats.of histogram).mean.toNat ≤ 2 ^ 30 ∧
      printStats log10 histogram = -logdb log10 (Stats.of histogram).mean := by
  have hshift := nbSamplesShift_pos hlt hpos
  have hmean := mean_le hlt hpos
  refine ⟨hshift, hmean, UInt64.le_iff_toNat_le.1 hmean, ?_⟩
  dsimp only [printStats]
  rw [if_neg (UInt64.ne_of_lt hpos).symm, if_neg (UInt64.ne_of_lt hshift).symm,
    if_neg (UInt64.not_lt.2 hmean)]

/-- As many samples of the most negative value as are not shifted, where the sum with the
rounding term wraps. -/
theorem printStats_of_pos_full :
    0 < (Stats.of (singleBin 0 0x3ffffffff)).nbSamplesShift ∧
      (Stats.of (singleBin 0 0x3ffffffff)).mean ≤ 0x8000 * 0x8000 ∧
      (Stats.of (singleBin 0 0x3ffffffff)).mean.toNat ≤ 2 ^ 30 ∧
      printStats (fun _ => 0) (singleBin 0 0x3ffffffff) =
        -logdb (fun _ => 0) (Stats.of (singleBin 0 0x3ffffffff)).mean := by
  have hcount : (0x3ffffffff : UInt64).toNat = 2 ^ 34 - 1 := rfl
  have htotal : total 0x10000 (singleBin 0 0x3ffffffff) = 2 ^ 34 - 1 :=
    (total_singleBin 0 0x3ffffffff (by decide)).trans hcount
  have hlt : total 0x10000 (singleBin 0 0x3ffffffff) < 2 ^ 64 := by
    rw [htotal]
    decide
  refine printStats_of_pos _ _ hlt ((total_pos_iff hlt).2 ?_)
  rw [htotal]
  decide

end AudioCrash.Audio
