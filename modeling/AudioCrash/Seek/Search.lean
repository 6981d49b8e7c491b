import AudioCrash.Lib.Bisect
import Mathlib.Data.List.Basic
import Mathlib.Tactic.Ring

/-!
# Searching the index of a stream

`run` seeks backward before it reads, and a demuxer looks the time up in the index of the stream:
a list of the packets it knows of, by their time stamps. The search is a bisection that steps over
packets to be discarded, and then goes on to a key frame.

## Main definitions

* `AVIndexEntry`, `Sorted` — the index.
* `ffIndexSearchTimestamp` — the search.
* `LastUpTo`, `FirstFrom` — what is to be found.
* `search_backward`, `search_forward` — it is.
-/

namespace AudioCrash.Seek

open Bisect

/-- `AVIndexEntry`, with the bits of its `flags`. -/
structure AVIndexEntry where
  pos : ℤ
  timestamp : ℤ
  keyframe : Bool
  discard : Bool
  /-- A signed field of 30 bits. -/
  size : ℤ
  minDistance : ℤ
  deriving DecidableEq, Repr, Inhabited

/-- The time stamps increase. -/
def Sorted (entries : List AVIndexEntry) : Prop :=
  entries.Pairwise fun e e' => e.timestamp < e'.timestamp

section model
variable (entries : List AVIndexEntry) (wanted : ℤ)

/-- `entries[i]`. -/
def entryAt (i : ℤ) : AVIndexEntry := entries.getD i.toNat default

/-- The loop that searches for the next packet that is not discarded. -/
def nextKept (b : ℤ) : ℕ → ℤ → ℤ
  | 0, m => m
  | n + 1, m =>
    if (entryAt entries m).discard && m < b && m < entries.length - 1 then
      if m + 1 = b && wanted ≤ (entryAt entries (m + 1)).timestamp then b - 1
      else nextKept b n (m + 1)
    else m

/-- The loop over the bounds. -/
def bisect : ℕ → ℤ × ℤ → ℤ × ℤ
  | 0, s => s
  | n + 1, (a, b) =>
    if 1 < b - a then
      let m := (a + b) / 2
      let m := nextKept entries wanted b (b - m).toNat m
      let timestamp := (entryAt entries m).timestamp
      bisect n (if timestamp ≤ wanted then m else a, if wanted ≤ timestamp then m else b)
    else (a, b)

/-- The loop to a key frame. -/
def toKeyframe (backward : Bool) : ℕ → ℤ → ℤ
  | 0, m => m
  | n + 1, m =>
    if 0 ≤ m && m < entries.length && !(entryAt entries m).keyframe then
      toKeyframe backward n (if backward then m - 1 else m + 1)
    else m

/-- `ff_index_search_timestamp`, with `AVSEEK_FLAG_BACKWARD` and `AVSEEK_FLAG_ANY`. -/
def ffIndexSearchTimestamp (backward any : Bool) : ℤ :=
  let n : ℤ := entries.length
  let a := if n ≠ 0 ∧ (entryAt entries (n - 1)).timestamp < wanted then n - 1 else -1
  let s := bisect entries wanted (entries.length + 1) (a, n)
  let m := if backward then s.1 else s.2
  let m := if any then m else toKeyframe entries backward (entries.length + 1) m
  if m = n then -1 else m

end model

variable {entries : List AVIndexEntry} {wanted a b m : ℤ}

theorem entryAt_natCast {i : ℕ} (hi : i < entries.length) : entryAt entries i = entries[i] := by
  simp [entryAt, hi]

theorem Sorted.increasing (h : Sorted entries) :
    Increasing (fun i => (entryAt entries i).timestamp) entries.length := by
  intro i j hi hij hj
  obtain ⟨i, rfl⟩ := Int.eq_ofNat_of_zero_le hi
  obtain ⟨j, rfl⟩ := Int.eq_ofNat_of_zero_le (hi.trans hij.le)
  have hj' : j < entries.length := by omega
  have hi' : i < entries.length := by omega
  simp only [entryAt_natCast hi', entryAt_natCast hj']
  exact List.pairwise_iff_getElem.1 h i j hi' hj' (by omega)

/-! ## The bounds -/

/-- The loop over discarded packets stays between the bounds, as the upper one is not too low. -/
theorem nextKept_between (hb : b < entries.length → wanted ≤ (entryAt entries b).timestamp)
    (n : ℕ) (hm : m < b) :
    m ≤ nextKept entries wanted b n m ∧ nextKept entries wanted b n m < b := by
  induction n generalizing m with
  | zero => exact ⟨le_rfl, hm⟩
  | succ n ih =>
    rw [nextKept]
    split_ifs with hdiscard hstop
    · omega
    · simp only [Bool.and_eq_true, decide_eq_true_eq] at hdiscard hstop
      have hne : m + 1 ≠ b := by
        intro heq
        exact hstop ⟨heq, heq ▸ hb (by omega)⟩
      have hnext := ih (m := m + 1) (by omega)
      omega
    · exact ⟨le_rfl, hm⟩

/-- **The bounds enclose the wanted time stamp, and meet.** -/
theorem bisect_encloses (h : Sorted entries) {n : ℕ}
    (hab : Encloses (fun i => (entryAt entries i).timestamp) entries.length wanted a b)
    (hn : b - a ≤ n + 1) :
    Encloses (fun i => (entryAt entries i).timestamp) entries.length wanted
      (bisect entries wanted n (a, b)).1 (bisect entries wanted n (a, b)).2 ∧
      (bisect entries wanted n (a, b)).2 ≤ (bisect entries wanted n (a, b)).1 + 1 := by
  induction n generalizing a b with
  | zero => exact ⟨hab, by rw [bisect]; push_cast at hn; omega⟩
  | succ n ih =>
    rw [bisect]
    split_ifs with hlt
    · have hupper : b < entries.length → wanted ≤ (entryAt entries b).timestamp := by
        intro hb
        cases hab with
        | apart _ _ _ _ habove => exact (habove b le_rfl hb).le
        | found heq => omega
      have hbetween := nextKept_between hupper (b - (a + b) / 2).toNat
        (m := (a + b) / 2) (by omega)
      have hprobe := hab.probe h.increasing (m := nextKept entries wanted b
        (b - (a + b) / 2).toNat ((a + b) / 2)) (by omega) hbetween.2
      refine ih hprobe ?_
      push_cast at hn ⊢
      split_ifs <;> omega
    · exact ⟨hab, by omega⟩

/-! ## The key frame -/

theorem toKeyframe_backward {n : ℕ} (hlow : -1 ≤ m) (hhigh : m < entries.length)
    (hn : m + 1 ≤ n) :
    -1 ≤ toKeyframe entries true n m ∧ toKeyframe entries true n m ≤ m ∧
      (0 ≤ toKeyframe entries true n m →
        (entryAt entries (toKeyframe entries true n m)).keyframe = true) ∧
      ∀ i, toKeyframe entries true n m < i → i ≤ m → (entryAt entries i).keyframe = false := by
  induction n generalizing m with
  | zero =>
    rw [toKeyframe]
    push_cast at hn
    exact ⟨hlow, le_rfl, fun h => by omega, fun i hi hle => by omega⟩
  | succ n ih =>
    rw [toKeyframe]
    simp only [↓reduceIte]
    push_cast at hn
    split_ifs with hstep
    · simp only [Bool.and_eq_true, decide_eq_true_eq, Bool.not_eq_true'] at hstep
      rcases ih (m := m - 1) (by omega) (by omega) (by omega) with ⟨h1, h2, h3, h4⟩
      refine ⟨h1, by omega, h3, fun i hi hle => ?_⟩
      rcases eq_or_lt_of_le hle with rfl | hlt
      · exact hstep.2
      · exact h4 i hi (by omega)
    · refine ⟨hlow, le_rfl, fun h => ?_, fun i hi hle => by omega⟩
      simpa [h, hhigh] using hstep

theorem toKeyframe_forward {n : ℕ} (hlow : 0 ≤ m) (hhigh : m ≤ entries.length)
    (hn : entries.length - m ≤ n) :
    m ≤ toKeyframe entries false n m ∧ toKeyframe entries false n m ≤ entries.length ∧
      (toKeyframe entries false n m < entries.length →
        (entryAt entries (toKeyframe entries false n m)).keyframe = true) ∧
      ∀ i, m ≤ i → i < toKeyframe entries false n m → (entryAt entries i).keyframe = false := by
  induction n generalizing m with
  | zero =>
    rw [toKeyframe]
    push_cast at hn
    exact ⟨le_rfl, hhigh, fun h => by omega, fun i hi hlt => by omega⟩
  | succ n ih =>
    rw [toKeyframe]
    simp only [Bool.false_eq_true, ↓reduceIte]
    push_cast at hn
    split_ifs with hstep
    · simp only [Bool.and_eq_true, decide_eq_true_eq, Bool.not_eq_true'] at hstep
      rcases ih (m := m + 1) (by omega) (by omega) (by omega) with ⟨h1, h2, h3, h4⟩
      refine ⟨by omega, h2, h3, fun i hi hlt => ?_⟩
      rcases eq_or_lt_of_le hi with rfl | hlt'
      · exact hstep.2
      · exact h4 i (by omega) hlt
    · refine ⟨le_rfl, hhigh, fun h => ?_, fun i hi hlt => by omega⟩
      simpa [h, hlow] using hstep

/-! ## What is found -/

/-- Packets that may be sought: all, or the key frames. -/
def Eligible (any : Bool) (e : AVIndexEntry) : Prop := any = true ∨ e.keyframe = true

/-- Where the lower bound of the search starts. -/
def lowerStart (entries : List AVIndexEntry) (wanted : ℤ) : ℤ :=
  if (entries.length : ℤ) ≠ 0 ∧ (entryAt entries (entries.length - 1)).timestamp < wanted then
    entries.length - 1
  else -1

/-- The bounds of the search in the end. -/
def bounds (entries : List AVIndexEntry) (wanted : ℤ) : ℤ × ℤ :=
  bisect entries wanted (entries.length + 1) (lowerStart entries wanted, entries.length)

theorem bounds_encloses (h : Sorted entries) (wanted : ℤ) :
    Encloses (fun i => (entryAt entries i).timestamp) entries.length wanted
      (bounds entries wanted).1 (bounds entries wanted).2 ∧
      (bounds entries wanted).2 ≤ (bounds entries wanted).1 + 1 := by
  have hstart : Encloses (fun i => (entryAt entries i).timestamp) entries.length wanted
      (lowerStart entries wanted) entries.length := by
    rw [lowerStart]
    split_ifs with hlast
    · exact encloses_end h.increasing (by omega) hlast.2
    · exact encloses_all (by omega)
  refine bisect_encloses h hstart ?_
  have hlow := hstart.bounds.1
  push_cast
  omega

theorem ffIndexSearchTimestamp_eq (entries : List AVIndexEntry) (wanted : ℤ)
    (backward any : Bool) :
    ffIndexSearchTimestamp entries wanted backward any =
      let m := if backward then (bounds entries wanted).1 else (bounds entries wanted).2
      let m := if any then m else toKeyframe entries backward (entries.length + 1) m
      if m = entries.length then -1 else m := rfl

/-- The last packet that may be sought and is not later than wanted is at `r`, which is -1 if there
is none. -/
def LastUpTo (entries : List AVIndexEntry) (any : Bool) (wanted r : ℤ) : Prop :=
  r < entries.length ∧ -1 ≤ r ∧
    (0 ≤ r → Eligible any (entryAt entries r) ∧ (entryAt entries r).timestamp ≤ wanted) ∧
    ∀ i, r < i → i < entries.length → Eligible any (entryAt entries i) →
      wanted < (entryAt entries i).timestamp

/-- The first packet that may be sought and is not earlier than wanted is at `r`, which is -1 if
there is none. -/
def FirstFrom (entries : List AVIndexEntry) (any : Bool) (wanted r : ℤ) : Prop :=
  (r = -1 ∧ ∀ i : ℤ, 0 ≤ i → i < entries.length → Eligible any (entryAt entries i) →
      (entryAt entries i).timestamp < wanted) ∨
    (0 ≤ r ∧ r < entries.length ∧ Eligible any (entryAt entries r) ∧
      wanted ≤ (entryAt entries r).timestamp ∧
      ∀ i, 0 ≤ i → i < r → Eligible any (entryAt entries i) →
        (entryAt entries i).timestamp < wanted)

/-- **Backward, the search finds the last packet that is not later than wanted.** -/
theorem search_backward (h : Sorted entries) (wanted : ℤ) (any : Bool) :
    LastUpTo entries any wanted (ffIndexSearchTimestamp entries wanted true any) := by
  rcases bounds_encloses h wanted with ⟨hab, hend⟩
  have hbounds := hab.bounds
  have hbelow := fun i => hab.below_iff h.increasing hend (i := i)
  have hlate : ∀ i, (bounds entries wanted).1 < i → i < entries.length →
      wanted < (entryAt entries i).timestamp := by
    intro i hi hn
    have hiff := hbelow i (by omega) hn
    by_contra hle
    exact absurd (hiff.1 (not_lt.1 hle)) (by omega)
  rw [ffIndexSearchTimestamp_eq]
  cases any with
  | true =>
    simp only [↓reduceIte]
    rw [if_neg (by omega)]
    refine ⟨hbounds.2.1, hbounds.1, fun h0 => ⟨.inl rfl, (hbelow _ h0 hbounds.2.1).2 le_rfl⟩, ?_⟩
    exact fun i hi hn _ => hlate i hi hn
  | false =>
    simp only [↓reduceIte, Bool.false_eq_true]
    rcases toKeyframe_backward (n := entries.length + 1) hbounds.1 hbounds.2.1
      (by push_cast; omega) with ⟨h1, h2, h3, h4⟩
    rw [if_neg (by omega)]
    refine ⟨by omega, h1, fun h0 => ⟨.inr (h3 h0), (hbelow _ h0 (by omega)).2 h2⟩, ?_⟩
    intro i hi hn heligible
    rcases lt_or_ge (bounds entries wanted).1 i with hlt | hle
    · exact hlate i hlt hn
    · rcases heligible with hany | hkey
      · cases hany
      · exact absurd hkey (by simp [h4 i hi hle])

/-- **Forward, the search finds the first packet that is not earlier than wanted.** -/
theorem search_forward (h : Sorted entries) (wanted : ℤ) (any : Bool) :
    FirstFrom entries any wanted (ffIndexSearchTimestamp entries wanted false any) := by
  rcases bounds_encloses h wanted with ⟨hab, hend⟩
  have hbounds := hab.bounds
  have habove := fun i => hab.above_iff h.increasing hend (i := i)
  have hearly : ∀ i, 0 ≤ i → i < (bounds entries wanted).2 →
      (entryAt entries i).timestamp < wanted := by
    intro i hi hn
    have hiff := habove i hi (by omega)
    by_contra hle
    exact absurd (hiff.1 (not_lt.1 hle)) (by omega)
  rw [ffIndexSearchTimestamp_eq]
  cases any with
  | true =>
    simp only [↓reduceIte, Bool.false_eq_true]
    split_ifs with hlast
    · exact .inl ⟨rfl, fun i hi hn _ => hearly i hi (by omega)⟩
    · have hlt : (bounds entries wanted).2 < entries.length := by omega
      exact .inr ⟨hbounds.2.2.1, hlt, .inl rfl, (habove _ hbounds.2.2.1 hlt).2 le_rfl,
        fun i hi hn _ => hearly i hi hn⟩
  | false =>
    simp only [↓reduceIte, Bool.false_eq_true]
    rcases toKeyframe_forward (n := entries.length + 1) hbounds.2.2.1 hbounds.2.2.2
      (by push_cast; omega) with ⟨h1, h2, h3, h4⟩
    have hnone : ∀ i, 0 ≤ i → i < toKeyframe entries false (entries.length + 1)
        (bounds entries wanted).2 → Eligible false (entryAt entries i) →
        (entryAt entries i).timestamp < wanted := by
      intro i hi hn heligible
      rcases lt_or_ge i (bounds entries wanted).2 with hlt | hle
      · exact hearly i hi hlt
      · rcases heligible with hany | hkey
        · cases hany
        · exact absurd hkey (by simp [h4 i hle hn])
    split_ifs with hlast
    · exact .inl ⟨rfl, fun i hi hn heligible => hnone i hi (by omega) heligible⟩
    · have hlt : toKeyframe entries false (entries.length + 1) (bounds entries wanted).2 <
          entries.length := by omega
      exact .inr ⟨by omega, hlt, .inr (h3 hlt), (habove _ (by omega) hlt).2 h1, hnone⟩

/-! ## A time stamp in the index -/

theorem LastUpTo.eq {r i : ℤ} (h : LastUpTo entries true wanted r) (hsorted : Sorted entries)
    (hi : 0 ≤ i) (hn : i < entries.length) (htime : (entryAt entries i).timestamp = wanted) :
    r = i := by
  rcases h with ⟨hr, _, hfound, hlate⟩
  have hle : i ≤ r := by
    by_contra hlt
    have hlate' := hlate i (by omega) hn (.inl rfl)
    omega
  have hearly := (hfound (by omega)).2
  by_contra hne
  have hincreasing := hsorted.increasing i r hi (by omega) hr
  dsimp only at hincreasing
  omega

theorem FirstFrom.eq {r i : ℤ} (h : FirstFrom entries true wanted r) (hsorted : Sorted entries)
    (hi : 0 ≤ i) (hn : i < entries.length) (htime : (entryAt entries i).timestamp = wanted) :
    r = i := by
  rcases h with ⟨_, hnone⟩ | ⟨hr, hr', _, hlate, hearly⟩
  · have hnone' := hnone i hi hn (.inl rfl)
    omega
  · have hle : r ≤ i := by
      by_contra hlt
      have hearly' := hearly i hi (by omega) (.inl rfl)
      omega
    by_contra hne
    have hincreasing := hsorted.increasing r i hr (by omega) hn
    dsimp only at hincreasing
    omega

/-- A packet is found by its time stamp, in either direction. -/
theorem search_eq (h : Sorted entries) {i : ℤ} (hi : 0 ≤ i) (hn : i < entries.length)
    (backward : Bool) :
    ffIndexSearchTimestamp entries (entryAt entries i).timestamp backward true = i := by
  cases backward with
  | true => exact (search_backward h _ true).eq h hi hn rfl
  | false => exact (search_forward h _ true).eq h hi hn rfl

end AudioCrash.Seek
