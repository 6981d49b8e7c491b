import AudioCrash.Bleu.Precision
import AudioCrash.Lib.FirstLeast
import Mathlib.Algebra.Order.Field.Basic
import Mathlib.Analysis.SpecialFunctions.Log.Basic

/-!
# The score of a corpus

`bleu` adds up the modified precisions of all sentences, order by order, and the lengths of
the hypotheses and of the references closest to them. The score is the brevity penalty times
the weighted geometric mean of the precisions, where a precision of zero is replaced by a
small one. Without a match of a single token the score is 0, and nothing is divided.

The arithmetic is exact: counters are natural numbers, and the score is computed in any
ordered field, over functions `exp` and `log`.

## Main definitions

* `closestRefLength`, `brevityPenalty`, `bleu` — the source.
* `Accumulators`, `accumulate` — the variables of `bleu` after the loop over the sentences.
* `numerator_accumulate`, `denominator_accumulate` — they are sums over the sentences.
* `bleu_defined` — what is divided by, and what the logarithm is taken of.
-/

namespace AudioCrash.Bleu

open Std RollingKey

/-! ## The source -/

/-- `INT_MAX`. -/
def intMax : ℕ := 0x7fffffff

/-- `std::abs(ref_len - hyp_len)`. -/
def distance (hyp_len : ℕ) (reference : List Int16) : ℕ :=
  ((reference.length : ℤ) - hyp_len).natAbs

/-- `closest_ref_length`. -/
def closestRefLength (references : List (List Int16)) (hyp_len : ℕ) : ℕ :=
  (references.foldl (fun (s : ℕ × ℕ) reference =>
    let (closest_ref_len, closest) := s
    let dis := distance hyp_len reference
    if dis < closest then (reference.length, dis) else (closest_ref_len, closest))
    (0, intMax)).1

/-- The variables of `bleu` that the loop over the sentences adds to. -/
structure Accumulators where
  pNumerators : TreeMap ℕ ℕ
  pDenominators : TreeMap ℕ ℕ
  hypLengths : ℕ
  refLengths : ℕ

/-- `count[n] = get(count, n) + v`. -/
def addAt (count : TreeMap ℕ ℕ) (n v : ℕ) : TreeMap ℕ ℕ := count.insert n (get count n 0 + v)

/-- One iteration of the loop over the orders. -/
def addOrder (references : List (List Int16)) (hypothesis : List Int16) (ii : ℕ)
    (acc : Accumulators) : Accumulators :=
  let n := ii + 1
  let p_i := modifiedPrecision references hypothesis n
  { acc with
    pNumerators := addAt acc.pNumerators n p_i.numerator
    pDenominators := addAt acc.pDenominators n p_i.denominator }

/-- One iteration of the loop over the sentences, for `w` weights. -/
def addSentence (w : ℕ) (acc : Accumulators) (sentence : List (List Int16) × List Int16) :
    Accumulators :=
  let (references, hypothesis) := sentence
  let acc := forLoop 0 w (addOrder references hypothesis) acc
  let hyp_len := hypothesis.length
  { acc with
    hypLengths := acc.hypLengths + hyp_len
    refLengths := acc.refLengths + closestRefLength references hyp_len }

/-- The variables after the loop over the sentences. -/
def accumulate (w : ℕ) (list_of_references : List (List (List Int16)))
    (hypotheses : List (List Int16)) : Accumulators :=
  (list_of_references.zip hypotheses).foldl (addSentence w) ⟨∅, ∅, 0, 0⟩

/-- `p_n`: the fraction of each order. -/
def precisions (w : ℕ) (acc : Accumulators) : List Fraction :=
  (List.range w).map fun idx =>
    ⟨acc.pNumerators.getD (idx + 1) 0, acc.pDenominators.getD (idx + 1) 0⟩

section score
variable {K : Type*} [Field K] [LinearOrder K] (exp log : K → K)

/-- `brevity_penalty`. -/
def brevityPenalty (closest_ref_len hyp_len : K) : K :=
  if closest_ref_len < hyp_len then 1
  else if hyp_len = 0 then 0
  else exp (1 - closest_ref_len / hyp_len)

/-- An entry of `p_n_f`. -/
def smoothen (epsilon : K) (p_i : Fraction) : K :=
  if p_i.numerator = 0 then (p_i.numerator + epsilon) / p_i.denominator
  else p_i.numerator / p_i.denominator

/-- `bleu`. -/
def bleu (list_of_references : List (List (List Int16))) (hypotheses : List (List Int16))
    (weights : List K) (epsilon : K) : K :=
  if list_of_references.length ≠ hypotheses.length then -100
  else
    let acc := accumulate weights.length list_of_references hypotheses
    let bp := brevityPenalty exp acc.refLengths acc.hypLengths
    if acc.pNumerators.getD 1 0 = 0 then 0
    else
      let p_n_f := (precisions weights.length acc).map (smoothen epsilon)
      bp * exp ((weights.zip p_n_f).foldl (fun s x => s + x.1 * log x.2) 0)

/-- The default `weights`. -/
def defaultWeights : List K := [1 / 4, 1 / 4, 1 / 4, 1 / 4]

/-- The default `epsilon`. -/
def defaultEpsilon : K := 1 / 10

end score

/-! ## The closest reference -/

/-- `closest_ref_length` is the first least element of the lengths. -/
theorem closestRefLength_eq (references : List (List Int16)) (hyp_len : ℕ) :
    closestRefLength references hyp_len =
      ((firstLeast (distance hyp_len) intMax references).map List.length).getD 0 := by
  have hscan : ∀ (references : List (List Int16)) (len bound : ℕ),
      (references.foldl (fun (s : ℕ × ℕ) reference =>
        let (closest_ref_len, closest) := s
        let dis := distance hyp_len reference
        if dis < closest then (reference.length, dis) else (closest_ref_len, closest))
        (len, bound)).1 =
        ((firstLeast (distance hyp_len) bound references).map List.length).getD len := by
    intro references
    induction references with
    | nil => simp [firstLeast]
    | cons r rs ih =>
      intro len bound
      rw [List.foldl_cons, firstLeast]
      dsimp only
      split_ifs with h
      · rw [ih]
        cases firstLeast (distance hyp_len) (distance hyp_len r) rs <;> rfl
      · exact ih len bound
  exact hscan references 0 intMax

/-! ## The sums over the sentences -/

theorem getD_addAt (count : TreeMap ℕ ℕ) (n v k : ℕ) :
    (addAt count n v).getD k 0 = count.getD k 0 + if n = k then v else 0 := by
  rw [addAt, get_zero, TreeMap.getD_insert]
  by_cases h : n = k
  · subst h
    simp
  · simp [h]

/-- The loop over the orders adds to the entries of the orders, and to no other. -/
theorem getD_addOrders (g : ℕ → ℕ) (w : ℕ) (count : TreeMap ℕ ℕ) (n : ℕ) :
    (forLoop 0 w (fun ii count => addAt count (ii + 1) (g (ii + 1))) count).getD n 0 =
      count.getD n 0 + if 1 ≤ n ∧ n ≤ w then g n else 0 := by
  refine forLoop_induction (Nat.zero_le w) (fun ii count => addAt count (ii + 1) (g (ii + 1))) count
    (fun w s => s.getD n 0 = count.getD n 0 + if 1 ≤ n ∧ n ≤ w then g n else 0) ?_ ?_
  · rw [if_neg (by omega), add_zero]
  · intro i s _ _ h
    rw [getD_addAt, h]
    by_cases hn : i + 1 = n
    · subst hn
      simp
    · have hiff : (1 ≤ n ∧ n ≤ i + 1) ↔ (1 ≤ n ∧ n ≤ i) := by omega
      simp only [hn, if_false, hiff, add_zero]

/-- The two maps are filled independently. -/
theorem addOrders_eq (references : List (List Int16)) (hypothesis : List Int16) (w : ℕ)
    (acc : Accumulators) :
    forLoop 0 w (addOrder references hypothesis) acc =
      { acc with
        pNumerators := forLoop 0 w (fun ii count => addAt count (ii + 1)
          (modifiedPrecision references hypothesis (ii + 1)).numerator) acc.pNumerators
        pDenominators := forLoop 0 w (fun ii count => addAt count (ii + 1)
          (modifiedPrecision references hypothesis (ii + 1)).denominator) acc.pDenominators } := by
  induction w with
  | zero => rfl
  | succ w ih =>
    rw [forLoop_succ (Nat.zero_le w), forLoop_succ (Nat.zero_le w), forLoop_succ (Nat.zero_le w),
      ih]
    rfl

theorem mem_precisions {w : ℕ} {acc : Accumulators} {p_i : Fraction} :
    p_i ∈ precisions w acc ↔ ∃ n, (1 ≤ n ∧ n ≤ w) ∧
      (⟨acc.pNumerators.getD n 0, acc.pDenominators.getD n 0⟩ : Fraction) = p_i := by
  simp only [precisions, List.mem_map, List.mem_range]
  constructor
  · rintro ⟨idx, hidx, rfl⟩
    exact ⟨idx + 1, ⟨Nat.le_add_left 1 idx, hidx⟩, rfl⟩
  · rintro ⟨n, ⟨h1, hw⟩, rfl⟩
    refine ⟨n - 1, by omega, ?_⟩
    rw [Nat.sub_add_cancel h1]

section corpus
variable (w : ℕ) (list_of_references : List (List (List Int16))) (hypotheses : List (List Int16))

/-- What each sentence adds to. -/
theorem addSentence_pNumerators (acc : Accumulators) (p : List (List Int16) × List Int16) (n : ℕ) :
    (addSentence w acc p).pNumerators.getD n 0 = acc.pNumerators.getD n 0 +
      if 1 ≤ n ∧ n ≤ w then (modifiedPrecision p.1 p.2 n).numerator else 0 := by
  simp only [addSentence, addOrders_eq]
  exact getD_addOrders (fun n => (modifiedPrecision p.1 p.2 n).numerator) w _ n

theorem addSentence_pDenominators (acc : Accumulators) (p : List (List Int16) × List Int16)
    (n : ℕ) :
    (addSentence w acc p).pDenominators.getD n 0 = acc.pDenominators.getD n 0 +
      if 1 ≤ n ∧ n ≤ w then (modifiedPrecision p.1 p.2 n).denominator else 0 := by
  simp only [addSentence, addOrders_eq]
  exact getD_addOrders (fun n => (modifiedPrecision p.1 p.2 n).denominator) w _ n

theorem addSentence_hypLengths (acc : Accumulators) (p : List (List Int16) × List Int16) :
    (addSentence w acc p).hypLengths = acc.hypLengths + p.2.length := by
  simp only [addSentence, addOrders_eq]

theorem addSentence_refLengths (acc : Accumulators) (p : List (List Int16) × List Int16) :
    (addSentence w acc p).refLengths = acc.refLengths + closestRefLength p.1 p.2.length := by
  simp only [addSentence, addOrders_eq]

/-- **The variables are sums over the sentences**: what every sentence adds to is a sum. -/
theorem foldl_addSentence {g : Accumulators → ℕ} {v : List (List Int16) × List Int16 → ℕ}
    (h : ∀ acc p, g (addSentence w acc p) = g acc + v p)
    (sentences : List (List (List Int16) × List Int16)) (acc : Accumulators) :
    g (sentences.foldl (addSentence w) acc) = g acc + (sentences.map v).sum := by
  induction sentences generalizing acc with
  | nil => simp
  | cons p sentences ih =>
    rw [List.foldl_cons, ih, h, List.map_cons, List.sum_cons, Nat.add_assoc]

theorem sum_map_ite (sentences : List (List (List Int16) × List Int16)) (n : ℕ)
    (v : List (List Int16) × List Int16 → ℕ) :
    (sentences.map fun p => if 1 ≤ n ∧ n ≤ w then v p else 0).sum =
      if 1 ≤ n ∧ n ≤ w then (sentences.map v).sum else 0 := by
  by_cases h : 1 ≤ n ∧ n ≤ w
  · simp only [if_pos h]
  · simp only [if_neg h, List.map_const', List.sum_replicate, smul_zero]

theorem numerator_accumulate (n : ℕ) :
    (accumulate w list_of_references hypotheses).pNumerators.getD n 0 =
      if 1 ≤ n ∧ n ≤ w then ((list_of_references.zip hypotheses).map fun p =>
        (modifiedPrecision p.1 p.2 n).numerator).sum else 0 := by
  rw [accumulate, foldl_addSentence w (g := fun acc => acc.pNumerators.getD n 0)
    (fun acc p => addSentence_pNumerators w acc p n), sum_map_ite]
  simp

theorem denominator_accumulate (n : ℕ) :
    (accumulate w list_of_references hypotheses).pDenominators.getD n 0 =
      if 1 ≤ n ∧ n ≤ w then ((list_of_references.zip hypotheses).map fun p =>
        (modifiedPrecision p.1 p.2 n).denominator).sum else 0 := by
  rw [accumulate, foldl_addSentence w (g := fun acc => acc.pDenominators.getD n 0)
    (fun acc p => addSentence_pDenominators w acc p n), sum_map_ite]
  simp

theorem hypLengths_accumulate :
    (accumulate w list_of_references hypotheses).hypLengths =
      ((list_of_references.zip hypotheses).map fun p => p.2.length).sum := by
  rw [accumulate, foldl_addSentence w (addSentence_hypLengths w), Nat.zero_add]

theorem refLengths_accumulate :
    (accumulate w list_of_references hypotheses).refLengths =
      ((list_of_references.zip hypotheses).map fun p => closestRefLength p.1 p.2.length).sum := by
  rw [accumulate, foldl_addSentence w (addSentence_refLengths w), Nat.zero_add]

/-! ## What is divided by -/

theorem numerator_le_denominator_accumulate (n : ℕ) :
    (accumulate w list_of_references hypotheses).pNumerators.getD n 0 ≤
      (accumulate w list_of_references hypotheses).pDenominators.getD n 0 := by
  rw [numerator_accumulate, denominator_accumulate]
  by_cases h : 1 ≤ n ∧ n ≤ w
  · rw [if_pos h, if_pos h]
    exact List.sum_le_sum fun p _ => numerator_le_denominator p.1 p.2 n
  · rw [if_neg h, if_neg h]

variable {w list_of_references hypotheses}

/-- A match of some order comes from a sentence. -/
theorem exists_of_numerator_ne_zero {n : ℕ}
    (h : (accumulate w list_of_references hypotheses).pNumerators.getD n 0 ≠ 0) :
    (1 ≤ n ∧ n ≤ w) ∧ ∃ p ∈ list_of_references.zip hypotheses,
      0 < (modifiedPrecision p.1 p.2 n).numerator := by
  rw [numerator_accumulate] at h
  by_cases hn : 1 ≤ n ∧ n ≤ w
  · rw [if_pos hn] at h
    refine ⟨hn, ?_⟩
    by_contra hnone
    push Not at hnone
    refine h (List.sum_eq_zero ?_)
    intro v hv
    rcases List.mem_map.1 hv with ⟨p, hp, rfl⟩
    exact Nat.le_zero.1 (hnone p hp)
  · exact absurd (if_neg hn) h

/-- Without a match of a single token there is no match at all. -/
theorem numerator_eq_zero_of_one
    (h : (accumulate w list_of_references hypotheses).pNumerators.getD 1 0 = 0) (n : ℕ) :
    (accumulate w list_of_references hypotheses).pNumerators.getD n 0 = 0 := by
  by_contra hn
  rcases exists_of_numerator_ne_zero hn with ⟨⟨h1, hw⟩, p, hp, hpos⟩
  rw [numerator_accumulate, if_pos ⟨le_rfl, h1.trans hw⟩] at h
  exact absurd (List.sum_eq_zero_iff.1 h _ (List.mem_map_of_mem hp)) (numerator_one_pos h1 hpos).ne'

/-- With a sentence, every order has a denominator. -/
theorem denominator_pos {p : List (List Int16) × List Int16}
    (hp : p ∈ list_of_references.zip hypotheses) {n : ℕ} (hn : 1 ≤ n ∧ n ≤ w) :
    1 ≤ (accumulate w list_of_references hypotheses).pDenominators.getD n 0 := by
  rw [denominator_accumulate, if_pos hn]
  refine Nat.le_trans ?_ (List.le_sum_of_mem (List.mem_map_of_mem hp))
  rw [denominator_eq_length]
  exact Nat.le_max_left 1 _

/-- A match takes a token of a hypothesis. -/
theorem hypLengths_pos {p : List (List Int16) × List Int16}
    (hp : p ∈ list_of_references.zip hypotheses)
    (hpos : 0 < (modifiedPrecision p.1 p.2 1).numerator) :
    1 ≤ (accumulate w list_of_references hypotheses).hypLengths := by
  rw [hypLengths_accumulate]
  refine Nat.le_trans ?_ (List.le_sum_of_mem (List.mem_map_of_mem hp))
  rcases numerator_pos_iff.1 hpos with ⟨k, hk, -⟩
  have hlen := List.length_pos_of_mem hk
  rw [ngrams_eq p.2 le_rfl, List.length_map, length_windows] at hlen
  omega

end corpus

/-- A fraction below one stays so when it is smoothened. -/
theorem smoothen_mem {epsilon : ℝ} (hpos : 0 < epsilon) (hle : epsilon ≤ 1) (p_i : Fraction)
    (hden : 1 ≤ p_i.denominator) (hfrac : p_i.numerator ≤ p_i.denominator) :
    0 < smoothen epsilon p_i ∧ smoothen epsilon p_i ≤ 1 := by
  have hden' : (1 : ℝ) ≤ p_i.denominator := by exact_mod_cast hden
  have hden0 : (0 : ℝ) < p_i.denominator := by linarith
  by_cases h : p_i.numerator = 0
  · rw [smoothen, if_pos h, h, Nat.cast_zero, zero_add]
    refine ⟨div_pos hpos hden0, ?_⟩
    rw [div_le_one hden0]
    exact hle.trans hden'
  · have hnum : (0 : ℝ) < p_i.numerator := by exact_mod_cast Nat.pos_of_ne_zero h
    rw [smoothen, if_neg h]
    refine ⟨div_pos hnum hden0, ?_⟩
    rw [div_le_one hden0]
    exact_mod_cast hfrac

/-- What the early return relies on, and what holds behind it: no order matches more often than
it occurs; without a match of order one there is none of any order; and with one, the
denominators and the length of the hypotheses are positive, and the precisions lie in `(0, 1]`
and have a logarithm. -/
structure Accumulators.Defined (acc : Accumulators) (w : ℕ) (epsilon : ℝ) : Prop where
  numerator_le : ∀ n, acc.pNumerators.getD n 0 ≤ acc.pDenominators.getD n 0
  numerator_eq_zero : acc.pNumerators.getD 1 0 = 0 → ∀ n, acc.pNumerators.getD n 0 = 0
  denominator : acc.pNumerators.getD 1 0 ≠ 0 →
    ∀ n, 1 ≤ n → n ≤ w → 1 ≤ acc.pDenominators.getD n 0
  hypLengths : acc.pNumerators.getD 1 0 ≠ 0 → 1 ≤ acc.hypLengths
  precision : acc.pNumerators.getD 1 0 ≠ 0 →
    ∀ p ∈ (precisions w acc).map (smoothen epsilon), 0 < p ∧ p ≤ 1 ∧ Real.log p ≤ 0

/-- **Behind the early return everything is defined.** -/
theorem bleu_defined (weights : List ℝ) (epsilon : ℝ) (hpos : 0 < epsilon) (hle : epsilon ≤ 1)
    (list_of_references : List (List (List Int16))) (hypotheses : List (List Int16)) :
    (accumulate weights.length list_of_references hypotheses).Defined weights.length epsilon := by
  have hfrac := numerator_le_denominator_accumulate weights.length list_of_references hypotheses
  refine ⟨hfrac, numerator_eq_zero_of_one, ?denominator, ?hypLengths, ?precision⟩
  case denominator =>
    intro hmatch n h1 hw
    rcases exists_of_numerator_ne_zero hmatch with ⟨-, p, hp, -⟩
    exact denominator_pos hp ⟨h1, hw⟩
  case hypLengths =>
    intro hmatch
    rcases exists_of_numerator_ne_zero hmatch with ⟨-, p, hp, hnum⟩
    exact hypLengths_pos hp hnum
  case precision =>
    intro hmatch f hf
    rcases exists_of_numerator_ne_zero hmatch with ⟨-, p, hp, -⟩
    rcases List.mem_map.1 hf with ⟨p_i, hp_i, rfl⟩
    rcases mem_precisions.1 hp_i with ⟨n, hn, rfl⟩
    rcases smoothen_mem hpos hle ⟨_, _⟩ (denominator_pos hp hn) (hfrac n) with ⟨hlo, hhi⟩
    exact ⟨hlo, hhi, Real.log_nonpos hlo.le hhi⟩

/-- The sequences of `main`, with the default weights. -/
theorem bleu_defined_main :
    (accumulate 4 [[[2, 6, 6, 10, 7, 12]]] [[14, 13, 4, 3, 6, 10]]).Defined 4 (1 / 10) :=
  bleu_defined [1 / 4, 1 / 4, 1 / 4, 1 / 4] (1 / 10) (by norm_num) (by norm_num)
    [[[2, 6, 6, 10, 7, 12]]] [[14, 13, 4, 3, 6, 10]]

end AudioCrash.Bleu
