import AudioCrash.Bleu.References
import Mathlib.Analysis.SpecialFunctions.Pow.Real

/-!
# The orders of the score

One order is counted for each weight. A key has room for four tokens: from order five on
windows that differ only in their first token are counted as the same. An order longer than
the hypothesis has no window; its precision is smoothened to `epsilon`, also where the
hypothesis is one of its references.

## Main definitions

* `CountsExactly`, `countsExactly_iff` — which orders are counted exactly.
* `bleu_self` — the score of one of the references.
-/

namespace AudioCrash.Bleu

open RollingKey

/-! ## Orders beyond four -/

/-- For each order up to `w` the matches of a corpus are those of the exact windows, and two
windows have the same key only if they are equal. -/
def CountsExactly (w : ℕ) : Prop :=
  ∀ n, 1 ≤ n → n ≤ w →
    (∀ (list_of_references : List (List (List Int16))) (hypotheses : List (List Int16)),
      list_of_references.length = hypotheses.length →
      (accumulate w list_of_references hypotheses).pNumerators.getD n 0 =
        ((list_of_references.zip hypotheses).map fun p => clippedWindows p.1 p.2 n).sum) ∧
    ∀ (s s' : List Int16) (i j : ℕ), i + n ≤ s.length → j + n ≤ s'.length →
      (ngrams s n).getD i 0 = (ngrams s' n).getD j 0 → window n i s = window n j s'

/-- The key at a position is that of the window there. -/
theorem getD_ngrams {s : List Int16} {n i : ℕ} (hn : 1 ≤ n) (hi : i + n ≤ s.length) :
    (ngrams s n).getD i 0 = key (window n i s) := by
  have hlen : i < (windows n s).length := by
    rw [length_windows]
    omega
  rw [ngrams_eq s hn, List.getD_eq_getElem _ _ (by simpa using hlen), List.getElem_map]
  simp [windows]

/-- Two sequences that differ in the first of five tokens share their key of order five. -/
theorem ngrams_five :
    (ngrams [1, 0, 0, 0, 0] 5).getD 0 0 = (ngrams [0, 0, 0, 0, 0] 5).getD 0 0 := by
  decide +kernel

/-- **The orders are counted exactly when there are at most four weights.** -/
theorem countsExactly_iff (weights : List ℝ) :
    CountsExactly weights.length ↔ weights.length ≤ 4 := by
  constructor
  · intro h
    by_contra hfour
    have hwindow := (h 5 (by decide) (by omega)).2 [1, 0, 0, 0, 0] [0, 0, 0, 0, 0] 0 0 (by decide)
      (by decide) ngrams_five
    exact absurd hwindow (by decide)
  · intro hfour n h1 hn
    have hn4 : n ≤ 4 := hn.trans hfour
    refine ⟨?_, ?_⟩
    · intro list_of_references hypotheses _
      rw [numerator_accumulate, if_pos ⟨h1, hn⟩]
      simp only [numerator_eq_clippedWindows _ _ h1 hn4]
    · intro s s' i j hi hj heq
      rw [getD_ngrams h1 hi, getD_ngrams h1 hj] at heq
      exact (key_inj hn4 (length_window hi) (length_window hj)).1 heq

/-- Five weights: a match is counted where no token sequence matches. -/
theorem not_countsExactly_five : ¬ CountsExactly 5 := by
  intro h
  have hnum := (h 5 (by decide) (by decide)).1 [[[0, 0, 0, 0, 0]]] [[1, 0, 0, 0, 0]] rfl
  rw [numerator_accumulate, if_pos (by decide)] at hnum
  have hexact : ([[[0, 0, 0, 0, 0]]].zip [[1, 0, 0, 0, 0]]).map
      (fun p => clippedWindows p.1 p.2 5) = [0] := by decide +kernel
  rw [hexact] at hnum
  have hzero : (modifiedPrecision [[0, 0, 0, 0, 0]] [1, 0, 0, 0, 0] 5).numerator = 0 := by
    simpa using hnum
  have hkey : key [1, 0, 0, 0, 0] = key [0, 0, 0, 0, 0] := by decide +kernel
  have hmatch : 0 < (modifiedPrecision [[0, 0, 0, 0, 0]] [1, 0, 0, 0, 0] 5).numerator := by
    rw [numerator_pos_iff]
    refine ⟨key [1, 0, 0, 0, 0], ?_, [0, 0, 0, 0, 0], List.mem_singleton_self _, ?_⟩
    · rw [ngrams_eq _ (by decide)]
      decide +kernel
    · rw [hkey, ngrams_eq _ (by decide)]
      decide +kernel
  exact hmatch.ne' hzero

/-! ## A hypothesis among its references -/

section self
variable {references : List (List Int16)} {x : List Int16} (hmem : x ∈ references)
include hmem

/-- Every key of the hypothesis is matched. -/
theorem numerator_self (n : ℕ) :
    (modifiedPrecision references x n).numerator = (ngrams x n).length := by
  rw [numerator_eq_sum_keys, ← List.sum_toFinset_count_eq_length]
  refine Finset.sum_congr rfl ?_
  intro k _
  have hcount := le_foldr_max (List.mem_map_of_mem (f := fun r => (ngrams r n).count k) hmem)
  rw [clippedAt, Nat.min_eq_left hcount]

/-- The precision of an order is one, or smoothened to `epsilon` where the hypothesis has no
window. -/
theorem smoothen_self (epsilon : ℝ) {n : ℕ} (hn : 1 ≤ n) :
    smoothen epsilon (modifiedPrecision references x n) =
      if n ≤ x.length then 1 else epsilon := by
  have hlen : (ngrams x n).length = x.length + 1 - n := by
    rw [ngrams_eq x hn, List.length_map, length_windows]
  have hnum := numerator_self hmem n
  have hden := denominator_eq_length references x n
  rw [hlen] at hnum hden
  by_cases h : n ≤ x.length
  · have hpos : x.length + 1 - n ≠ 0 := by omega
    have hcast : ((x.length + 1 - n : ℕ) : ℝ) ≠ 0 := Nat.cast_ne_zero.2 hpos
    have hmax : max 1 (x.length + 1 - n) = x.length + 1 - n := by omega
    rw [smoothen, hnum, hden, hmax, if_neg hpos, if_pos h, div_self hcast]
  · have hzero : x.length + 1 - n = 0 := by omega
    rw [smoothen, hnum, hden, hzero, if_pos rfl, if_neg h]
    simp

/-- The closest reference is as long as the hypothesis. -/
theorem closestRefLength_self : closestRefLength references x.length = x.length := by
  have hzero : distance x.length x = 0 := by simp [distance]
  rw [closestRefLength_eq]
  cases h : firstLeast (distance x.length) intMax references with
  | none =>
    have hle := firstLeast_eq_none_iff.1 h x hmem
    rw [hzero] at hle
    exact absurd hle (by decide)
  | some r =>
    have hle := (isLeastBelow_firstLeast h).le x hmem
    rw [hzero, distance] at hle
    rw [Option.map_some, Option.getD_some]
    omega

end self

/-- A corpus of one sentence. -/
theorem precisions_single (references : List (List Int16)) (x : List Int16) (w : ℕ) :
    precisions w (accumulate w [references] [x]) =
      (List.range w).map fun idx => modifiedPrecision references x (idx + 1) := by
  refine List.map_congr_left ?_
  intro idx hidx
  have hn : 1 ≤ idx + 1 ∧ idx + 1 ≤ w := ⟨Nat.le_add_left 1 idx, List.mem_range.1 hidx⟩
  rw [numerator_accumulate, denominator_accumulate, if_pos hn, if_pos hn]
  simp

/-- The smoothened precisions of a hypothesis among its references. -/
theorem smoothened_self {references : List (List Int16)} {x : List Int16} (hmem : x ∈ references)
    (epsilon : ℝ) (w : ℕ) :
    (precisions w (accumulate w [references] [x])).map (smoothen epsilon) =
      (List.range w).map fun idx => if idx + 1 ≤ x.length then 1 else epsilon := by
  rw [precisions_single, List.map_map]
  refine List.map_congr_left ?_
  intro idx _
  exact smoothen_self hmem epsilon (Nat.le_add_left 1 idx)

/-- The effective reference length is the length of the hypothesis. -/
theorem lengths_self {references : List (List Int16)} {x : List Int16} (hmem : x ∈ references)
    (w : ℕ) :
    (accumulate w [references] [x]).refLengths = x.length ∧
      (accumulate w [references] [x]).hypLengths = x.length := by
  rw [refLengths_accumulate, hypLengths_accumulate]
  simp [closestRefLength_self hmem]

/-- The brevity penalty does not bite. -/
theorem exponent_penalty_self {references : List (List Int16)} {x : List Int16} (hx : x ≠ [])
    (hmem : x ∈ references) :
    1 - ((accumulate 4 [references] [x]).refLengths : ℝ) /
      (accumulate 4 [references] [x]).hypLengths = 0 := by
  rcases lengths_self hmem 4 with ⟨href, hhyp⟩
  have hcast : (x.length : ℝ) ≠ 0 := Nat.cast_ne_zero.2 (List.length_pos_of_ne_nil hx).ne'
  rw [href, hhyp, div_self hcast, sub_self]

theorem brevityPenalty_self {references : List (List Int16)} {x : List Int16} (hx : x ≠ [])
    (hmem : x ∈ references) :
    brevityPenalty Real.exp ((accumulate 4 [references] [x]).refLengths : ℝ)
      (accumulate 4 [references] [x]).hypLengths = 1 := by
  have hexp := exponent_penalty_self hx hmem
  rcases lengths_self hmem 4 with ⟨href, hhyp⟩
  have hcast : (x.length : ℝ) ≠ 0 := Nat.cast_ne_zero.2 (List.length_pos_of_ne_nil hx).ne'
  rw [href, hhyp] at hexp ⊢
  rw [brevityPenalty, if_neg (lt_irrefl _), if_neg hcast, hexp, Real.exp_zero]

/-- Each order without a window adds a fourth of `log epsilon`. -/
theorem exponent_self (epsilon : ℝ) {len : ℕ} (hlen : 0 < len) :
    (defaultWeights.zip ((List.range 4).map fun idx => if idx + 1 ≤ len then 1 else epsilon)).foldl
        (fun s p => s + p.1 * Real.log p.2) 0 =
      Real.log epsilon * (((4 - min 4 len : ℕ) : ℝ) / 4) := by
  have hcases : len = 1 ∨ len = 2 ∨ len = 3 ∨ 4 ≤ len := by omega
  rcases hcases with rfl | rfl | rfl | h
  · simp [defaultWeights, List.range_succ]
    ring
  · simp [defaultWeights, List.range_succ]
    ring
  · simp [defaultWeights, List.range_succ]
    ring
  · have h1 : 1 < len := by omega
    have h2 : 2 < len := by omega
    have h3 : 3 < len := by omega
    simp [hlen, h, h1, h2, h3, defaultWeights, List.range_succ]

/-- The score, for a positive `epsilon`. -/
theorem score_self {references : List (List Int16)} {x : List Int16} (hx : x ≠ [])
    (hmem : x ∈ references) {epsilon : ℝ} (hpos : 0 < epsilon) :
    bleu Real.exp Real.log [references] [x] defaultWeights epsilon =
      epsilon ^ (((4 - min 4 x.length : ℕ) : ℝ) / 4) := by
  have hlen : 0 < x.length := List.length_pos_of_ne_nil hx
  have hweights : (defaultWeights : List ℝ).length = 4 := rfl
  have hnum : (accumulate 4 [references] [x]).pNumerators.getD 1 0 ≠ 0 := by
    rw [numerator_accumulate, if_pos (by decide)]
    have hself := numerator_self hmem 1
    rw [ngrams_eq x le_rfl, List.length_map, length_windows] at hself
    simp only [List.zip_cons_cons, List.zip_nil_left, List.map_cons, List.map_nil, List.sum_cons,
      List.sum_nil, hself]
    omega
  rw [bleu, if_neg (by simp), hweights]
  dsimp only
  rw [if_neg hnum, brevityPenalty_self hx hmem, one_mul, smoothened_self hmem,
    exponent_self epsilon hlen, Real.rpow_def_of_pos hpos]

/-- The score is one exactly when every order has a window. -/
theorem score_self_eq_one_iff {epsilon : ℝ} (hpos : 0 < epsilon) (hlt : epsilon < 1) (len : ℕ) :
    epsilon ^ (((4 - min 4 len : ℕ) : ℝ) / 4) = 1 ↔ 4 ≤ len := by
  constructor
  · intro h
    by_contra hlen
    have hexp : 0 < ((4 - min 4 len : ℕ) : ℝ) / 4 := by
      have hnat : 0 < 4 - min 4 len := by omega
      positivity
    exact (Real.rpow_lt_one hpos.le hlt hexp).ne h
  · intro h
    rw [Nat.min_eq_left h]
    simp

/-- **The score of one of the references.** Orders up to its length have precision one, longer
orders `epsilon`; the exponent of the brevity penalty is zero; the score is one exactly for
sequences of at least four tokens. -/
theorem bleu_self (x : List Int16) (hx : x ≠ []) (references : List (List Int16))
    (hmem : x ∈ references) :
    (precisions 4 (accumulate 4 [references] [x])).map (smoothen (defaultEpsilon : ℝ)) =
        (List.range 4).map (fun idx => if idx + 1 ≤ x.length then 1 else defaultEpsilon) ∧
      1 - ((accumulate 4 [references] [x]).refLengths : ℝ) /
        (accumulate 4 [references] [x]).hypLengths = 0 ∧
      brevityPenalty Real.exp ((accumulate 4 [references] [x]).refLengths : ℝ)
        (accumulate 4 [references] [x]).hypLengths = 1 ∧
      bleu Real.exp Real.log [references] [x] defaultWeights defaultEpsilon =
        (defaultEpsilon : ℝ) ^ (((4 - min 4 x.length : ℕ) : ℝ) / 4) ∧
      (bleu Real.exp Real.log [references] [x] defaultWeights defaultEpsilon = 1 ↔
        4 ≤ x.length) := by
  have hpos : (0 : ℝ) < defaultEpsilon := by norm_num [defaultEpsilon]
  have hlt : (defaultEpsilon : ℝ) < 1 := by norm_num [defaultEpsilon]
  have hscore := score_self hx hmem hpos
  refine ⟨smoothened_self hmem _ 4, exponent_penalty_self hx hmem, brevityPenalty_self hx hmem,
    hscore, ?_⟩
  rw [hscore]
  exact score_self_eq_one_iff hpos hlt x.length

/-- One of two references, of three tokens. -/
theorem bleu_self_three :
    (precisions 4 (accumulate 4 [[[5], [1, 2, 3]]] [[1, 2, 3]])).map
          (smoothen (defaultEpsilon : ℝ)) =
        (List.range 4).map (fun idx => if idx + 1 ≤ 3 then 1 else defaultEpsilon) ∧
      1 - ((accumulate 4 [[[5], [1, 2, 3]]] [[1, 2, 3]]).refLengths : ℝ) /
        (accumulate 4 [[[5], [1, 2, 3]]] [[1, 2, 3]]).hypLengths = 0 ∧
      brevityPenalty Real.exp ((accumulate 4 [[[5], [1, 2, 3]]] [[1, 2, 3]]).refLengths : ℝ)
        (accumulate 4 [[[5], [1, 2, 3]]] [[1, 2, 3]]).hypLengths = 1 ∧
      bleu Real.exp Real.log [[[5], [1, 2, 3]]] [[1, 2, 3]] defaultWeights defaultEpsilon =
        (defaultEpsilon : ℝ) ^ (((4 - min 4 3 : ℕ) : ℝ) / 4) ∧
      (bleu Real.exp Real.log [[[5], [1, 2, 3]]] [[1, 2, 3]] defaultWeights defaultEpsilon = 1 ↔
        4 ≤ 3) :=
  bleu_self [1, 2, 3] (by decide) [[5], [1, 2, 3]] (by decide)

/-- A single token that is its own reference: its other orders are smoothened. -/
theorem not_maximal_single :
    (∃ p ∈ (precisions 4 (accumulate 4 [[[1]]] [[1]])).map (smoothen (defaultEpsilon : ℝ)), p ≠ 1) ∧
      bleu Real.exp Real.log [[[1]]] [[1]] defaultWeights defaultEpsilon ≠ 1 := by
  have hpos : (0 : ℝ) < defaultEpsilon := by norm_num [defaultEpsilon]
  have hlt : (defaultEpsilon : ℝ) < 1 := by norm_num [defaultEpsilon]
  have hmem : [(1 : Int16)] ∈ [[(1 : Int16)]] := List.mem_singleton_self _
  refine ⟨⟨defaultEpsilon, ?_, hlt.ne⟩, ?_⟩
  · rw [smoothened_self hmem]
    exact List.mem_map.2 ⟨1, by decide, if_neg (by decide)⟩
  · rw [score_self (by decide) hmem hpos, Ne, score_self_eq_one_iff hpos hlt]
    decide

end AudioCrash.Bleu
