import AudioCrash.Bleu.Orders
import Mathlib.Tactic.IntervalCases

/-!
# The least and the greatest score

The score of a corpus lies between zero and one. It is zero where no hypothesis shares a token
with a reference, and one where the hypotheses are long enough and every one of their keys, of
every order, is covered by a reference. For one sentence and one reference this says that both
have the same windows, each as often; they need not be the same sequence.

## Main definitions

* `Covered` — the orders in which a hypothesis matches in full.
* `weightedLog` — the exponent of the score.
* `sentenceBleu` — the exported function.
* `bleu_range`, `sentenceBleu_eq_one_iff` — the extreme scores.
-/

namespace AudioCrash.Bleu

open RollingKey

/-! ## A hypothesis that matches in full -/

/-- The hypothesis has a key of order `n`, and each of its keys occurs as often in one of the
references. -/
def Covered (references : List (List Int16)) (hypothesis : List Int16) (n : ℕ) : Prop :=
  n ≤ hypothesis.length ∧ ∀ k ∈ ngrams hypothesis n,
    ∃ r ∈ references, (ngrams hypothesis n).count k ≤ (ngrams r n).count k

theorem le_foldr_max_iff {β : Type*} {l : List β} {f : β → ℕ} {a : ℕ} (ha : 0 < a) :
    a ≤ (l.map f).foldr max 0 ↔ ∃ r ∈ l, a ≤ f r := by
  induction l with
  | nil => simp [ha.ne']
  | cons r l ih => simp [ih]

section sentence
variable (references : List (List Int16)) (hypothesis : List Int16) {n : ℕ}

theorem length_ngrams (hn : 1 ≤ n) : (ngrams hypothesis n).length = hypothesis.length + 1 - n := by
  rw [ngrams_eq hypothesis hn, List.length_map, length_windows]

/-- The fraction of an order is one where the hypothesis is covered. -/
theorem numerator_eq_denominator_iff (hn : 1 ≤ n) :
    (modifiedPrecision references hypothesis n).numerator =
        (modifiedPrecision references hypothesis n).denominator ↔
      Covered references hypothesis n := by
  have hlength := length_ngrams hypothesis hn
  rw [numerator_eq_sum_keys, denominator_eq_length, Covered]
  by_cases hlong : n ≤ hypothesis.length
  · have hone : 1 ≤ (ngrams hypothesis n).length := by omega
    have hclip : ∀ k ∈ (ngrams hypothesis n).toFinset,
        clippedAt references hypothesis n k ≤ (ngrams hypothesis n).count k :=
      fun k _ => Nat.min_le_left _ _
    rw [Nat.max_eq_right hone, ← List.sum_toFinset_count_eq_length,
      Finset.sum_eq_sum_iff_of_le hclip]
    simp only [hlong, true_and, List.mem_toFinset, clippedAt]
    refine forall₂_congr fun k hk => ?_
    rw [min_eq_left_iff, le_foldr_max_iff (List.count_pos_iff.2 hk)]
  · have hnil : ngrams hypothesis n = [] := by
      rw [← List.length_eq_zero_iff]
      omega
    simp [hnil, hlong]

end sentence

/-- Two sums with entries below each other are equal entry by entry. -/
theorem sum_map_eq_iff {β : Type*} {l : List β} {f g : β → ℕ} (hle : ∀ p ∈ l, f p ≤ g p) :
    (l.map f).sum = (l.map g).sum ↔ ∀ p ∈ l, f p = g p := by
  induction l with
  | nil => simp
  | cons p l ih =>
    have hhead := hle p List.mem_cons_self
    have htail : (l.map f).sum ≤ (l.map g).sum :=
      List.sum_le_sum fun q hq => hle q (List.mem_cons_of_mem p hq)
    rw [List.forall_mem_cons, ← ih fun q hq => hle q (List.mem_cons_of_mem p hq)]
    simp only [List.map_cons, List.sum_cons]
    omega

section corpus
variable {w : ℕ} {list_of_references : List (List (List Int16))} {hypotheses : List (List Int16)}

/-- The fraction of an order of the corpus is one where every sentence is covered. -/
theorem numerator_accumulate_eq_iff {n : ℕ} (hn : 1 ≤ n ∧ n ≤ w) :
    (accumulate w list_of_references hypotheses).pNumerators.getD n 0 =
        (accumulate w list_of_references hypotheses).pDenominators.getD n 0 ↔
      ∀ p ∈ list_of_references.zip hypotheses, Covered p.1 p.2 n := by
  rw [numerator_accumulate, denominator_accumulate, if_pos hn, if_pos hn,
    sum_map_eq_iff fun p _ => numerator_le_denominator p.1 p.2 n]
  exact forall₂_congr fun p _ => numerator_eq_denominator_iff p.1 p.2 hn.1

theorem key_singleton_mem {s : List Int16} {t : Int16} : key [t] ∈ ngrams s 1 ↔ t ∈ s := by
  rw [ngrams_eq s le_rfl, List.mem_map]
  constructor
  · rintro ⟨g, hg, heq⟩
    rw [key_inj (by decide) (length_of_mem_windows hg) rfl] at heq
    exact mem_of_mem_windows hg (by simp [heq])
  · intro ht
    exact ⟨[t], singleton_mem_windows ht, rfl⟩

/-- No match of a token, in no sentence. -/
theorem numerator_one_eq_zero_iff (hw : 1 ≤ w) :
    (accumulate w list_of_references hypotheses).pNumerators.getD 1 0 = 0 ↔
      ∀ p ∈ list_of_references.zip hypotheses, ∀ r ∈ p.1, ∀ t ∈ p.2, t ∉ r := by
  rw [numerator_accumulate, if_pos ⟨le_rfl, hw⟩, List.sum_eq_zero_iff, List.forall_mem_map]
  refine forall₂_congr fun p _ => ?_
  rw [← not_iff_not, ← Ne, ← Nat.pos_iff_ne_zero, numerator_pos_iff]
  push Not
  constructor
  · rintro ⟨k, hk, r, hr, hkr⟩
    rw [ngrams_eq _ le_rfl, List.mem_map] at hk
    rcases hk with ⟨g, hg, rfl⟩
    rcases List.length_eq_one_iff.1 (length_of_mem_windows hg) with ⟨t, rfl⟩
    exact ⟨r, hr, t, mem_of_mem_windows hg List.mem_cons_self, key_singleton_mem.1 hkr⟩
  · rintro ⟨r, hr, t, ht, htr⟩
    exact ⟨key [t], key_singleton_mem.2 ht, r, hr, key_singleton_mem.2 htr⟩

end corpus

/-! ## The exponent -/

theorem smoothen_eq_one_iff {epsilon : ℝ} (hlt : epsilon < 1) {p_i : Fraction}
    (hden : 1 ≤ p_i.denominator) :
    smoothen epsilon p_i = 1 ↔ p_i.numerator = p_i.denominator := by
  have hden' : (1 : ℝ) ≤ p_i.denominator := by exact_mod_cast hden
  have hden0 : (p_i.denominator : ℝ) ≠ 0 := by linarith
  by_cases h : p_i.numerator = 0
  · rw [smoothen, if_pos h, h, Nat.cast_zero, zero_add, div_eq_one_iff_eq hden0]
    constructor
    · intro heq
      linarith
    · intro heq
      omega
  · rw [smoothen, if_neg h, div_eq_one_iff_eq hden0, Nat.cast_inj]

/-- The weighted sum of the logarithms. -/
noncomputable def weightedLog (weights precisions : List ℝ) : ℝ :=
  ((weights.zip precisions).map fun x => x.1 * Real.log x.2).sum

theorem weightedLog_eq_foldl (weights precisions : List ℝ) :
    (weights.zip precisions).foldl (fun s x => s + x.1 * Real.log x.2) 0 =
      weightedLog weights precisions := by
  rw [weightedLog, List.sum_eq_foldl, List.foldl_map]

section exponent
variable {weights precisions : List ℝ}

theorem weightedLog_cons (x p : ℝ) :
    weightedLog (x :: weights) (p :: precisions) =
      x * Real.log p + weightedLog weights precisions := by
  simp [weightedLog]

theorem mul_log_nonpos {x p : ℝ} (hx : 0 < x) (hp : 0 < p ∧ p ≤ 1) : x * Real.log p ≤ 0 :=
  mul_nonpos_of_nonneg_of_nonpos hx.le (Real.log_nonpos hp.1.le hp.2)

theorem weightedLog_nonpos (hw : ∀ x ∈ weights, 0 < x)
    (hp : ∀ p ∈ precisions, 0 < p ∧ p ≤ 1) : weightedLog weights precisions ≤ 0 := by
  induction weights generalizing precisions with
  | nil => simp [weightedLog]
  | cons x weights ih =>
    cases precisions with
    | nil => simp [weightedLog]
    | cons p precisions =>
      rw [List.forall_mem_cons] at hw hp
      have hrest := ih hw.2 hp.2
      have hhead := mul_log_nonpos hw.1 hp.1
      rw [weightedLog_cons]
      linarith

/-- The exponent is zero where every precision is one. -/
theorem weightedLog_eq_zero_iff (hw : ∀ x ∈ weights, 0 < x)
    (hp : ∀ p ∈ precisions, 0 < p ∧ p ≤ 1) (hlen : weights.length = precisions.length) :
    weightedLog weights precisions = 0 ↔ ∀ p ∈ precisions, p = 1 := by
  induction weights generalizing precisions with
  | nil =>
    have hnil : precisions = [] := List.length_eq_zero_iff.1 hlen.symm
    simp [hnil, weightedLog]
  | cons x weights ih =>
    cases precisions with
    | nil => exact absurd hlen (Nat.succ_ne_zero _)
    | cons p precisions =>
      rw [List.forall_mem_cons] at hw hp
      have hrest := weightedLog_nonpos hw.2 hp.2
      have hhead := mul_log_nonpos hw.1 hp.1
      have hone : x * Real.log p = 0 ↔ p = 1 := by
        rw [mul_eq_zero, or_iff_right hw.1.ne', ← Real.log_one]
        exact ⟨fun h => Real.log_injOn_pos hp.1.1 (Set.mem_Ioi.2 one_pos) h, fun h => by rw [h]⟩
      rw [weightedLog_cons, List.forall_mem_cons, ← ih hw.2 hp.2 (Nat.succ.inj hlen), ← hone]
      constructor
      · intro h
        exact ⟨by linarith, by linarith⟩
      · rintro ⟨h, h'⟩
        rw [h, h', add_zero]

end exponent

/-! ## The range of the score -/

theorem brevityPenalty_mem (ref_len : ℕ) {hyp_len : ℕ} (hhyp : 1 ≤ hyp_len) :
    0 < brevityPenalty Real.exp (ref_len : ℝ) hyp_len ∧
      brevityPenalty Real.exp (ref_len : ℝ) hyp_len ≤ 1 ∧
      (brevityPenalty Real.exp (ref_len : ℝ) hyp_len = 1 ↔ ref_len ≤ hyp_len) := by
  have hpos : (0 : ℝ) < hyp_len := by exact_mod_cast hhyp
  by_cases hlt : ref_len < hyp_len
  · have hlt' : (ref_len : ℝ) < hyp_len := by exact_mod_cast hlt
    rw [brevityPenalty, if_pos hlt']
    exact ⟨one_pos, le_rfl, iff_of_true rfl hlt.le⟩
  · have hge : (hyp_len : ℝ) ≤ ref_len := by exact_mod_cast Nat.not_lt.1 hlt
    have hratio : 1 ≤ (ref_len : ℝ) / hyp_len := (one_le_div hpos).2 hge
    rw [brevityPenalty, if_neg hge.not_gt, if_neg hpos.ne']
    refine ⟨Real.exp_pos _, Real.exp_le_one_iff.2 (by linarith), ?_⟩
    rw [Real.exp_eq_one_iff, sub_eq_zero, eq_comm, div_eq_one_iff_eq hpos.ne', Nat.cast_inj]
    omega

section matched
variable {list_of_references : List (List (List Int16))} {hypotheses : List (List Int16)}
  {weights : List ℝ} {epsilon : ℝ}

theorem bleu_of_unmatched (hlen : list_of_references.length = hypotheses.length)
    (hmatch : (accumulate weights.length list_of_references hypotheses).pNumerators.getD 1 0 = 0) :
    bleu Real.exp Real.log list_of_references hypotheses weights epsilon = 0 := by
  rw [bleu, if_neg (not_not.2 hlen)]
  dsimp only
  rw [if_pos hmatch]

theorem bleu_of_matched (hlen : list_of_references.length = hypotheses.length)
    (hmatch : (accumulate weights.length list_of_references hypotheses).pNumerators.getD 1 0 ≠ 0) :
    bleu Real.exp Real.log list_of_references hypotheses weights epsilon =
      brevityPenalty Real.exp
          ((accumulate weights.length list_of_references hypotheses).refLengths : ℝ)
          (accumulate weights.length list_of_references hypotheses).hypLengths *
        Real.exp (weightedLog weights
          ((precisions weights.length
              (accumulate weights.length list_of_references hypotheses)).map
            (smoothen epsilon))) := by
  rw [bleu, if_neg (not_not.2 hlen)]
  dsimp only
  rw [if_neg hmatch, weightedLog_eq_foldl]

variable {w : ℕ}
  (hmatch : (accumulate w list_of_references hypotheses).pNumerators.getD 1 0 ≠ 0)
include hmatch

theorem denominator_accumulate_pos {n : ℕ} (hn : 1 ≤ n ∧ n ≤ w) :
    1 ≤ (accumulate w list_of_references hypotheses).pDenominators.getD n 0 := by
  rcases exists_of_numerator_ne_zero hmatch with ⟨-, p, hp, -⟩
  exact denominator_pos hp hn

theorem hypLengths_accumulate_pos :
    1 ≤ (accumulate w list_of_references hypotheses).hypLengths := by
  rcases exists_of_numerator_ne_zero hmatch with ⟨-, p, hp, hnum⟩
  exact hypLengths_pos hp hnum

theorem mem_smoothened (hpos : 0 < epsilon) (hle : epsilon ≤ 1) :
    ∀ p ∈ (precisions w (accumulate w list_of_references hypotheses)).map (smoothen epsilon),
      0 < p ∧ p ≤ 1 := by
  rw [List.forall_mem_map]
  intro p_i hp_i
  rcases mem_precisions.1 hp_i with ⟨n, hn, rfl⟩
  exact smoothen_mem hpos hle _ (denominator_accumulate_pos hmatch hn)
    (numerator_le_denominator_accumulate w list_of_references hypotheses n)

/-- Every precision is one where every sentence is covered in every order. -/
theorem smoothened_eq_one_iff (hlt : epsilon < 1) :
    (∀ p ∈ (precisions w (accumulate w list_of_references hypotheses)).map (smoothen epsilon),
        p = 1) ↔
      ∀ p ∈ list_of_references.zip hypotheses, ∀ n, 1 ≤ n → n ≤ w → Covered p.1 p.2 n := by
  rw [List.forall_mem_map]
  constructor
  · intro h p hp n h1 hn
    have hone := h _ (mem_precisions.2 ⟨n, ⟨h1, hn⟩, rfl⟩)
    rw [smoothen_eq_one_iff hlt (denominator_accumulate_pos hmatch ⟨h1, hn⟩)] at hone
    exact (numerator_accumulate_eq_iff ⟨h1, hn⟩).1 hone p hp
  · intro h p_i hp_i
    rcases mem_precisions.1 hp_i with ⟨n, hn, rfl⟩
    rw [smoothen_eq_one_iff hlt (denominator_accumulate_pos hmatch hn)]
    exact (numerator_accumulate_eq_iff hn).2 fun p hp => h p hp n hn.1 hn.2

end matched

/-- A sentence that is covered matches. -/
theorem numerator_one_ne_zero {w : ℕ} {list_of_references : List (List (List Int16))}
    {hypotheses : List (List Int16)} {p : List (List Int16) × List Int16} (hw : 1 ≤ w)
    (hp : p ∈ list_of_references.zip hypotheses)
    (h : ∀ p ∈ list_of_references.zip hypotheses, Covered p.1 p.2 1) :
    (accumulate w list_of_references hypotheses).pNumerators.getD 1 0 ≠ 0 := by
  rw [(numerator_accumulate_eq_iff ⟨le_rfl, hw⟩).2 h]
  exact Nat.one_le_iff_ne_zero.1 (denominator_pos hp ⟨le_rfl, hw⟩)

theorem mul_eq_one_iff_of_mem {x y : ℝ} (hx : 0 < x ∧ x ≤ 1) (hy : 0 < y ∧ y ≤ 1) :
    x * y = 1 ↔ x = 1 ∧ y = 1 := by
  constructor
  · intro h
    have hx1 := mul_le_of_le_one_right hx.1.le hy.2
    have hy1 := mul_le_of_le_one_left hy.1.le hx.2
    rw [h] at hx1 hy1
    exact ⟨le_antisymm hx.2 hx1, le_antisymm hy.2 hy1⟩
  · rintro ⟨rfl, rfl⟩
    exact one_mul 1

section range
variable {list_of_references : List (List (List Int16))} {hypotheses : List (List Int16)}
  {weights : List ℝ} {epsilon : ℝ} (hlen : list_of_references.length = hypotheses.length)
  (hw : ∀ x ∈ weights, 0 < x) (hpos : 0 < epsilon) (hlt : epsilon < 1)
include hlen hw hpos hlt

/-- Behind the early return both factors lie in `(0, 1]`. -/
theorem bleu_mem_of_matched
    (hmatch : (accumulate weights.length list_of_references hypotheses).pNumerators.getD 1 0 ≠ 0) :
    0 < bleu Real.exp Real.log list_of_references hypotheses weights epsilon ∧
      bleu Real.exp Real.log list_of_references hypotheses weights epsilon ≤ 1 := by
  have hpenalty := brevityPenalty_mem
    (accumulate weights.length list_of_references hypotheses).refLengths
    (hypLengths_accumulate_pos hmatch)
  have hlog := weightedLog_nonpos hw (mem_smoothened hmatch hpos hlt.le)
  rw [bleu_of_matched hlen hmatch]
  exact ⟨mul_pos hpenalty.1 (Real.exp_pos _),
    mul_le_one₀ hpenalty.2.1 (Real.exp_pos _).le (Real.exp_le_one_iff.2 hlog)⟩

theorem bleu_eq_zero_iff :
    bleu Real.exp Real.log list_of_references hypotheses weights epsilon = 0 ↔
      weights = [] ∨ ∀ p ∈ list_of_references.zip hypotheses, ∀ r ∈ p.1, ∀ t ∈ p.2, t ∉ r := by
  by_cases hweights : weights = []
  · refine iff_of_true (bleu_of_unmatched hlen ?_) (Or.inl hweights)
    rw [numerator_accumulate, if_neg]
    simp [hweights]
  · have hw1 : 1 ≤ weights.length := List.length_pos_of_ne_nil hweights
    rw [or_iff_right hweights, ← numerator_one_eq_zero_iff hw1]
    constructor
    · intro h
      by_contra hmatch
      exact (bleu_mem_of_matched hlen hw hpos hlt hmatch).1.ne' h
    · exact bleu_of_unmatched hlen

theorem bleu_eq_one_iff :
    bleu Real.exp Real.log list_of_references hypotheses weights epsilon = 1 ↔
      weights ≠ [] ∧ hypotheses ≠ [] ∧
        ((list_of_references.zip hypotheses).map fun p => closestRefLength p.1 p.2.length).sum ≤
          ((list_of_references.zip hypotheses).map fun p => p.2.length).sum ∧
        ∀ p ∈ list_of_references.zip hypotheses, ∀ n, 1 ≤ n → n ≤ weights.length →
          Covered p.1 p.2 n := by
  by_cases hmatch :
      (accumulate weights.length list_of_references hypotheses).pNumerators.getD 1 0 = 0
  · rw [bleu_of_unmatched hlen hmatch]
    refine iff_of_false zero_ne_one ?_
    rintro ⟨hne, hhyp, -, hcovered⟩
    have hw1 : 1 ≤ weights.length := List.length_pos_of_ne_nil hne
    have hzip : list_of_references.zip hypotheses ≠ [] := by
      rw [Ne, List.zip_eq_nil_iff, ← List.length_eq_zero_iff, hlen, List.length_eq_zero_iff]
      simpa using hhyp
    rcases List.exists_mem_of_ne_nil _ hzip with ⟨p, hp⟩
    exact numerator_one_ne_zero hw1 hp (fun p hp => hcovered p hp 1 le_rfl hw1) hmatch
  · rcases exists_of_numerator_ne_zero hmatch with ⟨⟨-, hw1⟩, p, hp, -⟩
    have hweights : weights ≠ [] := List.ne_nil_of_length_pos hw1
    have hhyp : hypotheses ≠ [] := by
      rintro rfl
      rw [List.zip_nil_right] at hp
      exact List.not_mem_nil hp
    have hpenalty := brevityPenalty_mem
      (accumulate weights.length list_of_references hypotheses).refLengths
      (hypLengths_accumulate_pos hmatch)
    have hprecisions := mem_smoothened hmatch hpos hlt.le
    have hlog := weightedLog_nonpos hw hprecisions
    rw [bleu_of_matched hlen hmatch, mul_eq_one_iff_of_mem ⟨hpenalty.1, hpenalty.2.1⟩
        ⟨Real.exp_pos _, Real.exp_le_one_iff.2 hlog⟩, hpenalty.2.2, Real.exp_eq_one_iff,
      weightedLog_eq_zero_iff hw hprecisions (by simp [precisions]),
      smoothened_eq_one_iff hmatch hlt, refLengths_accumulate, hypLengths_accumulate]
    simp only [hweights, hhyp, not_false_eq_true, ne_eq, true_and]

end range

/-- **The score lies between zero and one**, and this is where it is at the ends: no hypothesis
shares a token with a reference, or the hypotheses are as long as the references closest to them
and covered in every order. -/
theorem bleu_range (list_of_references : List (List (List Int16)))
    (hypotheses : List (List Int16)) (weights : List ℝ) (epsilon : ℝ)
    (hlen : list_of_references.length = hypotheses.length) (hw : ∀ x ∈ weights, 0 < x)
    (hpos : 0 < epsilon) (hlt : epsilon < 1) :
    0 ≤ bleu Real.exp Real.log list_of_references hypotheses weights epsilon ∧
      bleu Real.exp Real.log list_of_references hypotheses weights epsilon ≤ 1 ∧
      (bleu Real.exp Real.log list_of_references hypotheses weights epsilon = 0 ↔
        weights = [] ∨ ∀ p ∈ list_of_references.zip hypotheses, ∀ r ∈ p.1, ∀ t ∈ p.2, t ∉ r) ∧
      (bleu Real.exp Real.log list_of_references hypotheses weights epsilon = 1 ↔
        weights ≠ [] ∧ hypotheses ≠ [] ∧
          ((list_of_references.zip hypotheses).map fun p =>
              closestRefLength p.1 p.2.length).sum ≤
            ((list_of_references.zip hypotheses).map fun p => p.2.length).sum ∧
          ∀ p ∈ list_of_references.zip hypotheses, ∀ n, 1 ≤ n → n ≤ weights.length →
            Covered p.1 p.2 n) := by
  have hzero := bleu_eq_zero_iff hlen hw hpos hlt
  have hone := bleu_eq_one_iff hlen hw hpos hlt
  by_cases hmatch :
      (accumulate weights.length list_of_references hypotheses).pNumerators.getD 1 0 = 0
  · rw [bleu_of_unmatched hlen hmatch] at hzero hone ⊢
    exact ⟨le_rfl, zero_le_one, hzero, hone⟩
  · rcases bleu_mem_of_matched hlen hw hpos hlt hmatch with ⟨hlo, hhi⟩
    exact ⟨hlo.le, hhi, hzero, hone⟩

theorem defaultWeights_pos : ∀ x ∈ (defaultWeights : List ℝ), 0 < x := by
  intro x hx
  simp only [defaultWeights, List.mem_cons, List.not_mem_nil, or_false, or_self] at hx
  rw [hx]
  norm_num

theorem defaultEpsilon_mem : 0 < (defaultEpsilon : ℝ) ∧ (defaultEpsilon : ℝ) < 1 := by
  norm_num [defaultEpsilon]

/-- The sequences of `main`: a score between the ends. -/
theorem bleu_range_main :
    bleu Real.exp Real.log [[[2, 6, 6, 10, 7, 12]]] [[14, 13, 4, 3, 6, 10]] defaultWeights
        defaultEpsilon ≠ 0 ∧
      bleu Real.exp Real.log [[[2, 6, 6, 10, 7, 12]]] [[14, 13, 4, 3, 6, 10]] defaultWeights
        defaultEpsilon ≠ 1 := by
  have h := bleu_range [[[2, 6, 6, 10, 7, 12]]] [[14, 13, 4, 3, 6, 10]] defaultWeights
    defaultEpsilon rfl defaultWeights_pos defaultEpsilon_mem.1 defaultEpsilon_mem.2
  constructor
  · rw [Ne, h.2.2.1]
    simp [defaultWeights]
  · rw [Ne, h.2.2.2]
    rintro ⟨-, -, -, hcovered⟩
    have hkey := (hcovered _ List.mem_cons_self 1 le_rfl (by decide)).2 (key [14])
      (key_singleton_mem.2 (by decide))
    rcases hkey with ⟨r, hr, hcount⟩
    obtain rfl := List.mem_singleton.1 hr
    exact absurd hcount (by decide +kernel)

/-! ## One sentence and one reference -/

section sentence
variable {K : Type*} [Field K] [LinearOrder K] (exp log : K → K)

/-- `sentence_bleu`. -/
def sentenceBleu (reference hypothesis : List Int16) : K :=
  bleu exp log [[reference]] [hypothesis] defaultWeights defaultEpsilon

end sentence

/-- One reference covers the hypothesis where it has all of its windows. -/
theorem covered_singleton_iff {reference hypothesis : List Int16} {n : ℕ} (h1 : 1 ≤ n)
    (h4 : n ≤ 4) : Covered [reference] hypothesis n ↔
      n ≤ hypothesis.length ∧ (windows n hypothesis).Subperm (windows n reference) := by
  rw [Covered, List.subperm_ext_iff, ngrams_eq hypothesis h1, List.forall_mem_map]
  refine and_congr_right fun _ => forall₂_congr fun g hg => ?_
  have hcount := count_key h1 h4 (length_of_mem_windows hg)
  rw [← ngrams_eq hypothesis h1, hcount]
  simp only [List.mem_singleton, exists_eq_left, hcount, occurrences]

theorem closestRefLength_singleton (reference : List Int16) (hyp_len : ℕ) :
    closestRefLength [reference] hyp_len =
      if distance hyp_len reference < intMax then reference.length else 0 := by
  simp only [closestRefLength, List.foldl_cons, List.foldl_nil]
  split_ifs <;> rfl

/-- As long as the reference, and with all of its windows: the same windows. -/
theorem covered_iff_perm {reference hypothesis : List Int16} (hsize : reference.length < 2 ^ 31) :
    (closestRefLength [reference] hypothesis.length ≤ hypothesis.length ∧
        ∀ n, 1 ≤ n → n ≤ 4 → Covered [reference] hypothesis n) ↔
      4 ≤ hypothesis.length ∧
        ∀ n, 1 ≤ n → n ≤ 4 → (windows n hypothesis).Perm (windows n reference) := by
  constructor
  · rintro ⟨hclosest, hcovered⟩
    have hfour := (hcovered 4 (by decide) le_rfl).1
    have hle := ((covered_singleton_iff le_rfl (by decide)).1
      (hcovered 1 le_rfl (by decide))).2.length_le
    rw [length_windows, length_windows] at hle
    have hnear : distance hypothesis.length reference < intMax := by
      rw [distance, intMax]
      omega
    rw [closestRefLength_singleton, if_pos hnear] at hclosest
    refine ⟨hfour, fun n h1 h4 => ?_⟩
    refine ((covered_singleton_iff h1 h4).1 (hcovered n h1 h4)).2.perm_of_length_le ?_
    rw [length_windows, length_windows]
    omega
  · rintro ⟨hfour, hperm⟩
    have hlen := (hperm 1 le_rfl (by decide)).length_eq
    rw [length_windows, length_windows] at hlen
    refine ⟨?_, fun n h1 h4 =>
      (covered_singleton_iff h1 h4).2 ⟨h4.trans hfour, (hperm n h1 h4).subperm⟩⟩
    rw [closestRefLength_singleton]
    split_ifs <;> omega

/-- **The extreme scores of one sentence**: no token in common; or the same windows of one to
four tokens, each as often. -/
theorem sentenceBleu_extremes (reference hypothesis : List Int16)
    (hsize : reference.length < 2 ^ 31) :
    (sentenceBleu Real.exp Real.log reference hypothesis = 0 ↔
        ∀ t ∈ hypothesis, t ∉ reference) ∧
      (sentenceBleu Real.exp Real.log reference hypothesis = 1 ↔
        4 ≤ hypothesis.length ∧ ∀ n, 1 ≤ n → n ≤ 4 →
          (windows n hypothesis).Perm (windows n reference)) := by
  have hweights : (defaultWeights : List ℝ) ≠ [] := List.cons_ne_nil _ _
  have hlength : (defaultWeights : List ℝ).length = 4 := rfl
  rw [sentenceBleu]
  constructor
  · rw [bleu_eq_zero_iff rfl defaultWeights_pos defaultEpsilon_mem.1 defaultEpsilon_mem.2,
      or_iff_right hweights]
    simp
  · rw [bleu_eq_one_iff rfl defaultWeights_pos defaultEpsilon_mem.1 defaultEpsilon_mem.2,
      hlength, ← covered_iff_perm hsize]
    simp [hweights]

/-- Two sequences with the same windows. -/
theorem sentenceBleu_extremes_swapped :
    sentenceBleu Real.exp Real.log [1, 1, 1, 2, 1, 1, 1, 3, 1, 1, 1]
      [1, 1, 1, 3, 1, 1, 1, 2, 1, 1, 1] = 1 := by
  refine (sentenceBleu_extremes _ _ (by decide)).2.2 ⟨by decide, fun n h1 h4 => ?_⟩
  interval_cases n <;> decide +kernel

end AudioCrash.Bleu
