import AudioCrash.Bleu.Ngrams
import AudioCrash.Lib.KeyedMap
import Mathlib.Algebra.BigOperators.Group.Finset.Basic
import Mathlib.Algebra.Order.BigOperators.Group.Finset

/-!
# Modified precision

`modified_precision` goes through three maps keyed by packed n-grams: the counts of the
hypothesis, their maxima over the references, and the counts clipped at those maxima. Each
map is described by one lookup lemma, and the two final loops become sums over the distinct
keys. Up to four tokens the keys are the windows themselves (`key_inj`), so the sums are
sums over distinct windows.

## Main definitions

* `get`, `counter`, `maxCounts`, `clippedCounts`, `modifiedPrecision` — the source.
* `occurrences g n s` — how often a window occurs in a sequence.
* `clippedWindows`, `numerator_eq_clippedWindows`, `denominator_eq_length` — what the fraction is.
-/

namespace AudioCrash.Bleu

open Std KeyedMap RollingKey

/-- `Fraction`: two counters, both non-negative here. -/
structure Fraction where
  numerator : ℕ
  denominator : ℕ
  deriving DecidableEq, Repr

/-- `get`: the value at a key, or `ref`. -/
def get {κ : Type*} [Ord κ] (count : TreeMap κ ℕ) (key : κ) (ref : ℕ) : ℕ :=
  if count.contains key then count.getD key 0 else ref

/-- `counter`. -/
def counter (historys : List Int64) : TreeMap Int64 ℕ :=
  historys.foldl (fun count history =>
    if count.contains history then count.insert history (count.getD history 0 + 1)
    else count.insert history 1) ∅

/-- One round of the loop over the references: raise the maxima at the keys of `counts`. -/
def raise (counts : TreeMap Int64 ℕ) (n : ℕ) (maxCounts : TreeMap Int64 ℕ)
    (reference : List Int16) : TreeMap Int64 ℕ :=
  let referenceCounts := counter (ngrams reference n)
  counts.toList.foldl (fun m item =>
    m.insert item.1 (max (get m item.1 0) (get referenceCounts item.1 0))) maxCounts

/-- `max_counts` when the references are done. -/
def maxCounts (references : List (List Int16)) (counts : TreeMap Int64 ℕ) (n : ℕ) :
    TreeMap Int64 ℕ :=
  references.foldl (raise counts n) ∅

/-- `clipped_counts`. Reading `max_counts[ngram]` where there is no such key gives zero. -/
def clippedCounts (counts maxCounts : TreeMap Int64 ℕ) : TreeMap Int64 ℕ :=
  counts.toList.foldl (fun m item =>
    m.insert item.1 (min item.2 (maxCounts.getD item.1 0))) ∅

/-- The sum of the values of a map. -/
def total (t : TreeMap Int64 ℕ) : ℕ := t.toList.foldl (fun s item => s + item.2) 0

/-- `modified_precision`. -/
def modifiedPrecision (references : List (List Int16)) (hypothesis : List Int16) (n : ℕ) :
    Fraction :=
  let counts := counter (ngrams hypothesis n)
  let clipped := clippedCounts counts (maxCounts references counts n)
  ⟨total clipped, max 1 (total counts)⟩

/-! ## The three maps -/

@[simp] theorem get_zero {κ : Type*} [Ord κ] [TransOrd κ] (count : TreeMap κ ℕ) (key : κ) :
    get count key 0 = count.getD key 0 := by
  by_cases h : count.contains key
  · rw [get, if_pos h]
  · rw [get, if_neg h, TreeMap.getD_eq_fallback (by simpa using h)]

theorem counter_concat (l : List Int64) (x : Int64) :
    counter (l ++ [x]) = (counter l).insert x ((counter l).getD x 0 + 1) := by
  have hstep : counter (l ++ [x]) = if (counter l).contains x
      then (counter l).insert x ((counter l).getD x 0 + 1) else (counter l).insert x 1 := by
    simp [counter, List.foldl_append]
  rw [hstep]
  by_cases h : (counter l).contains x
  · rw [if_pos h]
  · rw [if_neg h, TreeMap.getD_eq_fallback (by simpa using h)]

/-- `counter` counts. -/
theorem getD_counter (l : List Int64) (k : Int64) : (counter l).getD k 0 = l.count k := by
  induction l using List.reverseRecOn with
  | nil => simp [counter]
  | append_singleton l x ih =>
    rw [counter_concat, TreeMap.getD_insert, List.count_append, List.count_singleton]
    by_cases h : x = k
    · subst h
      simp [ih]
    · simp [h, ih]

theorem mem_counter (l : List Int64) (k : Int64) : k ∈ counter l ↔ k ∈ l := by
  induction l using List.reverseRecOn with
  | nil => simp [counter]
  | append_singleton l x ih =>
    rw [counter_concat, TreeMap.mem_insert, ih, LawfulEqCmp.compare_eq_iff_eq, List.mem_append,
      List.mem_singleton, or_comm, eq_comm]

/-- The distinct keys of a counted list. -/
theorem keySet_counter (l : List Int64) : keySet (counter l) = l.toFinset := by
  ext k
  rw [mem_keySet, mem_counter, List.mem_toFinset]

theorem raise_eq_updateEach (counts : TreeMap Int64 ℕ) (n : ℕ) (m : TreeMap Int64 ℕ)
    (reference : List Int16) :
    raise counts n m reference =
      updateEach (fun x v => max v ((ngrams reference n).count x.1)) 0 counts.toList m := by
  simp only [raise, get_zero, getD_counter]
  rfl

/-- One reference raises each maximum to its own count. -/
theorem getD_raise {counts : TreeMap Int64 ℕ} {k : Int64} (hk : k ∈ counts) (n : ℕ)
    (m : TreeMap Int64 ℕ) (reference : List Int16) :
    (raise counts n m reference).getD k 0 =
      max (m.getD k 0) ((ngrams reference n).count k) := by
  rw [raise_eq_updateEach]
  exact getD_updateEach (nodup_map_fst_toList counts) (exists_mem_toList hk 0)

/-- The maxima over all references, on top of what the map held before. -/
theorem getD_foldl_raise {counts : TreeMap Int64 ℕ} {k : Int64} (hk : k ∈ counts) (n : ℕ)
    (references : List (List Int16)) (m : TreeMap Int64 ℕ) :
    (references.foldl (raise counts n) m).getD k 0 =
      max (m.getD k 0) ((references.map fun r => (ngrams r n).count k).foldr max 0) := by
  induction references generalizing m with
  | nil => simp
  | cons r rs ih =>
    rw [List.foldl_cons, ih, getD_raise hk, List.map_cons, List.foldr_cons, max_assoc]

theorem getD_maxCounts {counts : TreeMap Int64 ℕ} {k : Int64} (hk : k ∈ counts) (n : ℕ)
    (references : List (List Int16)) :
    (maxCounts references counts n).getD k 0 =
      (references.map fun r => (ngrams r n).count k).foldr max 0 := by
  rw [maxCounts, getD_foldl_raise hk]
  simp

theorem clippedCounts_eq_updateEach (counts maxs : TreeMap Int64 ℕ) :
    clippedCounts counts maxs =
      updateEach (fun x _ => min x.2 (maxs.getD x.1 0)) 0 counts.toList ∅ := rfl

theorem getD_clippedCounts {counts : TreeMap Int64 ℕ} {k : Int64} (hk : k ∈ counts)
    (maxs : TreeMap Int64 ℕ) :
    (clippedCounts counts maxs).getD k 0 = min (counts.getD k 0) (maxs.getD k 0) := by
  rw [clippedCounts_eq_updateEach]
  exact getD_updateEach (nodup_map_fst_toList counts) (exists_mem_toList hk 0)

/-- Clipping keeps the keys. -/
theorem keySet_clippedCounts (counts maxs : TreeMap Int64 ℕ) :
    keySet (clippedCounts counts maxs) = keySet counts := by
  ext k
  rw [mem_keySet, mem_keySet, clippedCounts_eq_updateEach, mem_updateEach,
    TreeMap.map_fst_toList_eq_keys, TreeMap.mem_keys]
  simp

theorem total_eq_sum (t : TreeMap Int64 ℕ) : total t = ∑ k ∈ keySet t, t.getD k 0 := by
  rw [← sum_map_toList t 0 fun _ v => v, total, List.sum_eq_foldl, List.foldl_map]

/-! ## Sums over keys -/

/-- The clipped count of one key. -/
def clippedAt (references : List (List Int16)) (hypothesis : List Int16) (n : ℕ) (k : Int64) : ℕ :=
  min ((ngrams hypothesis n).count k) ((references.map fun r => (ngrams r n).count k).foldr max 0)

/-- For every order, the numerator is the sum of the clipped counts of the distinct keys. -/
theorem numerator_eq_sum_keys (references : List (List Int16)) (hypothesis : List Int16) (n : ℕ) :
    (modifiedPrecision references hypothesis n).numerator =
      ∑ k ∈ (ngrams hypothesis n).toFinset, clippedAt references hypothesis n k := by
  change total _ = _
  rw [total_eq_sum, keySet_clippedCounts, keySet_counter]
  refine Finset.sum_congr rfl ?_
  intro k hk
  have hmem : k ∈ counter (ngrams hypothesis n) := by
    rw [mem_counter]
    exact List.mem_toFinset.1 hk
  rw [getD_clippedCounts hmem, getD_counter, getD_maxCounts hmem, clippedAt]

/-- For every order, the denominator is the number of keys, and at least one. -/
theorem denominator_eq_length (references : List (List Int16)) (hypothesis : List Int16) (n : ℕ) :
    (modifiedPrecision references hypothesis n).denominator =
      max 1 (ngrams hypothesis n).length := by
  change max 1 (total _) = _
  rw [total_eq_sum, keySet_counter]
  congr 1
  rw [← List.sum_toFinset_count_eq_length]
  refine Finset.sum_congr rfl ?_
  intro k _
  exact getD_counter _ k

/-- A key is clipped at its number of occurrences: the fraction is at most one. -/
theorem numerator_le_denominator (references : List (List Int16)) (hypothesis : List Int16)
    (n : ℕ) :
    (modifiedPrecision references hypothesis n).numerator ≤
      (modifiedPrecision references hypothesis n).denominator := by
  rw [numerator_eq_sum_keys, denominator_eq_length]
  refine Nat.le_trans ?_ (Nat.le_max_right 1 _)
  rw [← List.sum_toFinset_count_eq_length]
  exact Finset.sum_le_sum fun k _ => Nat.min_le_left _ _

theorem mem_of_count_foldr_pos {references : List (List Int16)} {n : ℕ} {k : Int64}
    (h : 0 < (references.map fun r => (ngrams r n).count k).foldr max 0) :
    ∃ r ∈ references, k ∈ ngrams r n := by
  induction references with
  | nil => simp at h
  | cons r rs ih =>
    rw [List.map_cons, List.foldr_cons, lt_max_iff] at h
    rcases h with hr | hrs
    · exact ⟨r, List.mem_cons_self, List.count_pos_iff.1 hr⟩
    · rcases ih hrs with ⟨r', hr', hk⟩
      exact ⟨r', List.mem_cons_of_mem r hr', hk⟩

theorem le_foldr_max {l : List ℕ} {x : ℕ} (h : x ∈ l) : x ≤ l.foldr max 0 := by
  induction l with
  | nil => simp at h
  | cons y l ih =>
    rw [List.foldr_cons, le_max_iff]
    rcases List.mem_cons.1 h with rfl | h
    · exact Or.inl le_rfl
    · exact Or.inr (ih h)

/-- The fraction is positive exactly when the hypothesis shares a key with a reference. -/
theorem numerator_pos_iff {references : List (List Int16)} {hypothesis : List Int16} {n : ℕ} :
    0 < (modifiedPrecision references hypothesis n).numerator ↔
      ∃ k ∈ ngrams hypothesis n, ∃ r ∈ references, k ∈ ngrams r n := by
  rw [numerator_eq_sum_keys, Finset.sum_pos_iff]
  constructor
  · rintro ⟨k, hk, hpos⟩
    exact ⟨k, List.mem_toFinset.1 hk, mem_of_count_foldr_pos (lt_min_iff.1 hpos).2⟩
  · rintro ⟨k, hk, r, hr, hkr⟩
    refine ⟨k, List.mem_toFinset.2 hk, lt_min_iff.2 ⟨List.count_pos_iff.2 hk, ?_⟩⟩
    exact (List.count_pos_iff.2 hkr).trans_le (le_foldr_max (List.mem_map_of_mem hr))

/-- The last token of a window is a key of order one. -/
theorem key_last_mem_ngrams {s w : List Int16} {n : ℕ} {t : Int16} (h : w ++ [t] ∈ windows n s) :
    key [t] ∈ ngrams s 1 := by
  rw [ngrams_eq s le_rfl]
  exact List.mem_map_of_mem (singleton_mem_windows (mem_of_mem_windows h (by simp)))

/-- **A match of any order is a match of order one**: the last token survives the packing. -/
theorem numerator_one_pos {references : List (List Int16)} {hypothesis : List Int16} {n : ℕ}
    (hn : 1 ≤ n) (h : 0 < (modifiedPrecision references hypothesis n).numerator) :
    0 < (modifiedPrecision references hypothesis 1).numerator := by
  rcases numerator_pos_iff.1 h with ⟨k, hk, r, hr, hkr⟩
  rw [ngrams_eq _ hn, List.mem_map] at hk hkr
  rcases hk with ⟨g, hg, rfl⟩
  rcases hkr with ⟨g', hg', heq⟩
  have hlen := length_of_mem_windows hg
  have hlen' := length_of_mem_windows hg'
  rcases List.eq_nil_or_concat g with rfl | ⟨w, t, rfl⟩
  · simp only [List.length_nil] at hlen
    omega
  rcases List.eq_nil_or_concat g' with rfl | ⟨w', t', rfl⟩
  · simp only [List.length_nil] at hlen'
    omega
  simp only [List.concat_eq_append] at hg hg' heq
  have ht : t' = t := last_eq_of_key heq
  subst ht
  exact numerator_pos_iff.2 ⟨key [t'], key_last_mem_ngrams hg, r, hr, key_last_mem_ngrams hg'⟩

/-! ## Sums over windows -/

/-- How often the window `g` occurs in the sequence `s`. -/
def occurrences (n : ℕ) (g s : List Int16) : ℕ := (windows n s).count g

/-- Up to four tokens a key is counted as often as its window. -/
theorem count_key {n : ℕ} (h1 : 1 ≤ n) (h4 : n ≤ 4) {g : List Int16} (hg : g.length = n)
    (s : List Int16) : (ngrams s n).count (key g) = occurrences n g s := by
  rw [ngrams_eq s h1, occurrences, List.count, List.count, List.countP_map]
  refine List.countP_congr ?_
  intro w hw
  simp only [Function.comp_apply, beq_iff_eq]
  exact key_inj h4 (length_of_mem_windows hw) hg

/-- The clipped count of the exact windows. -/
def clippedWindows (references : List (List Int16)) (hypothesis : List Int16) (n : ℕ) : ℕ :=
  ∑ g ∈ (windows n hypothesis).toFinset, min (occurrences n g hypothesis)
    ((references.map (occurrences n g)).foldr max 0)

/-- Up to four tokens the numerator is a sum over the distinct windows of the hypothesis. -/
theorem numerator_eq_clippedWindows (references : List (List Int16)) (hypothesis : List Int16)
    {n : ℕ} (h1 : 1 ≤ n) (h4 : n ≤ 4) :
    (modifiedPrecision references hypothesis n).numerator =
      clippedWindows references hypothesis n := by
  have hkeys : (ngrams hypothesis n).toFinset = (windows n hypothesis).toFinset.image key := by
    ext k
    simp [ngrams_eq hypothesis h1]
  rw [numerator_eq_sum_keys, hkeys, Finset.sum_image]
  · refine Finset.sum_congr rfl ?_
    intro g hg
    have hlen : g.length = n := length_of_mem_windows (List.mem_toFinset.1 hg)
    rw [clippedAt, count_key h1 h4 hlen]
    congr 3
    funext r
    exact count_key h1 h4 hlen r
  · intro g hg g' hg' heq
    exact (key_inj h4 (length_of_mem_windows (List.mem_toFinset.1 hg))
      (length_of_mem_windows (List.mem_toFinset.1 hg'))).1 heq

/-- **Modified precision counts exact windows.** The numerator is the sum over the distinct
windows of the hypothesis of the clipped number of occurrences, the denominator the number
of windows; the rolling keys are those of the windows packed on their own, and they agree
only for equal windows. -/
theorem modifiedPrecision_spec (references : List (List Int16)) (hypothesis : List Int16) (n : ℕ)
    (h1 : 1 ≤ n) (h4 : n ≤ 4) :
    (modifiedPrecision references hypothesis n).numerator =
        ∑ g ∈ (windows n hypothesis).toFinset, min (occurrences n g hypothesis)
          ((references.map (occurrences n g)).foldr max 0) ∧
      ((modifiedPrecision references hypothesis n).denominator : ℤ) =
        max 1 ((hypothesis.length : ℤ) - n + 1) ∧
      (∀ s : List Int16, ngrams s n = (windows n s).map key) ∧
      ∀ w w' : List Int16, w.length = n → w'.length = n → (key w = key w' ↔ w = w') := by
  refine ⟨numerator_eq_clippedWindows references hypothesis h1 h4, ?_,
    fun s => ngrams_eq s h1, fun w w' hw hw' => key_inj h4 hw hw'⟩
  rw [denominator_eq_length, ngrams_eq hypothesis h1, List.length_map, length_windows]
  omega

/-- The pairs of the sequences of `main`. -/
theorem modifiedPrecision_spec_main :
    (modifiedPrecision [[2, 6, 6, 10, 7, 12]] [14, 13, 4, 3, 6, 10] 2).numerator =
        ∑ g ∈ (windows 2 [14, 13, 4, 3, 6, 10]).toFinset,
          min (occurrences 2 g [14, 13, 4, 3, 6, 10])
            (([[2, 6, 6, 10, 7, 12]].map (occurrences 2 g)).foldr max 0) ∧
      ((modifiedPrecision [[2, 6, 6, 10, 7, 12]] [14, 13, 4, 3, 6, 10] 2).denominator : ℤ) =
        max 1 ((6 : ℕ) - (2 : ℕ) + 1) ∧
      (∀ s : List Int16, ngrams s 2 = (windows 2 s).map key) ∧
      ∀ w w' : List Int16, w.length = 2 → w'.length = 2 → (key w = key w' ↔ w = w') :=
  modifiedPrecision_spec [[2, 6, 6, 10, 7, 12]] [14, 13, 4, 3, 6, 10] 2 (by decide) (by decide)

end AudioCrash.Bleu
