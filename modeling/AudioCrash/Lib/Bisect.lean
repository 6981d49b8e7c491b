import Mathlib.Order.Interval.Set.Basic
import Mathlib.Tactic.Linarith

/-!
# Bisection

A strictly increasing sequence is searched between two bounds that close in on a wanted value.
Any index between the bounds may be probed. The bounds meet where the value is found, or stand
next to each other around the place where it would be.

## Main definitions

* `Bisect.Increasing` — the sequence.
* `Bisect.Encloses` — the invariant.
* `Bisect.Encloses.probe` — one step.
* `Bisect.Encloses.below_iff`, `Bisect.Encloses.above_iff` — what the bounds are in the end.
-/

namespace AudioCrash.Bisect

variable {α : Type*} [LinearOrder α] {key : ℤ → α} {n : ℤ} {wanted : α} {a b m i j : ℤ}

/-- The sequence is strictly increasing at the indices from 0 to `n - 1`. -/
def Increasing (key : ℤ → α) (n : ℤ) : Prop := ∀ i j, 0 ≤ i → i < j → j < n → key i < key j

theorem Increasing.le (h : Increasing key n) (hi : 0 ≤ i) (hij : i ≤ j) (hj : j < n) :
    key i ≤ key j := by
  rcases eq_or_lt_of_le hij with rfl | hlt
  · exact le_rfl
  · exact (h i j hi hlt hj).le

/-- The bounds of a search: what is wanted lies between them, or at both. -/
inductive Encloses (key : ℤ → α) (n : ℤ) (wanted : α) (a b : ℤ) : Prop where
  | apart (lt : a < b) (low : -1 ≤ a) (high : b ≤ n)
      (below : ∀ i, 0 ≤ i → i ≤ a → key i < wanted) (above : ∀ i, b ≤ i → i < n → wanted < key i)
  | found (eq : a = b) (low : 0 ≤ a) (high : a < n) (key_eq : key a = wanted)

/-- Nothing is known at the start. -/
theorem encloses_all (hn : 0 ≤ n) : Encloses key n wanted (-1) n :=
  .apart (by omega) le_rfl le_rfl (fun i hi hle => by omega) (fun i hle hlt => by omega)

/-- All of the sequence is too small. -/
theorem encloses_end (h : Increasing key n) (hn : 0 < n) (hlast : key (n - 1) < wanted) :
    Encloses key n wanted (n - 1) n :=
  .apart (by omega) (by omega) le_rfl
    (fun i hi hle => (h.le hi hle (by omega)).trans_lt hlast) (fun i hle hlt => by omega)

/-- **A probe between the bounds** moves one of them, or both when it finds the value. -/
theorem Encloses.probe (h : Increasing key n) (hab : Encloses key n wanted a b) (ha : a < m)
    (hb : m < b) :
    Encloses key n wanted (if key m ≤ wanted then m else a)
      (if wanted ≤ key m then m else b) := by
  cases hab with
  | found heq => omega
  | apart hlt hlow hhigh hbelow habove =>
    rcases lt_trichotomy (key m) wanted with hkey | hkey | hkey
    · rw [if_pos hkey.le, if_neg (not_le.2 hkey)]
      exact .apart hb (by omega) hhigh
        (fun i hi hle => (h.le hi hle (by omega)).trans_lt hkey) habove
    · rw [if_pos hkey.le, if_pos hkey.ge]
      exact .found rfl (by omega) (by omega) hkey
    · rw [if_neg (not_le.2 hkey), if_pos hkey.le]
      exact .apart ha hlow (by omega) hbelow
        (fun i hle hlt => hkey.trans_le (h.le (by omega) hle hlt))

theorem Encloses.bounds (hab : Encloses key n wanted a b) : -1 ≤ a ∧ a < n ∧ 0 ≤ b ∧ b ≤ n := by
  cases hab with
  | apart hlt hlow hhigh => omega
  | found heq hlow hhigh => omega

/-- The lower bound is the last index whose value is not above the wanted one. -/
theorem Encloses.below_iff (h : Increasing key n) (hab : Encloses key n wanted a b)
    (hend : b ≤ a + 1) (hi : 0 ≤ i) (hn : i < n) : key i ≤ wanted ↔ i ≤ a := by
  cases hab with
  | apart hlt hlow hhigh hbelow habove =>
    constructor
    · intro hle
      by_contra hai
      exact absurd (habove i (by omega) hn) (not_lt.2 hle)
    · exact fun hia => (hbelow i hi hia).le
  | found heq hlow hhigh hkey =>
    constructor
    · intro hle
      by_contra hai
      exact absurd (hkey ▸ h a i hlow (by omega) hn) (not_lt.2 hle)
    · exact fun hia => hkey ▸ h.le hi hia hhigh

/-- The upper bound is the first index whose value is not below the wanted one. -/
theorem Encloses.above_iff (h : Increasing key n) (hab : Encloses key n wanted a b)
    (hend : b ≤ a + 1) (hi : 0 ≤ i) (hn : i < n) : wanted ≤ key i ↔ b ≤ i := by
  cases hab with
  | apart hlt hlow hhigh hbelow habove =>
    constructor
    · intro hle
      by_contra hbi
      exact absurd (hbelow i hi (by omega)) (not_lt.2 hle)
    · exact fun hbi => (habove i hbi hn).le
  | found heq hlow hhigh hkey =>
    subst heq
    constructor
    · intro hle
      by_contra hbi
      exact absurd (hkey ▸ h i a hi (by omega) hhigh) (not_lt.2 hle)
    · exact fun hbi => hkey ▸ h.le hlow hbi hn

end AudioCrash.Bisect
