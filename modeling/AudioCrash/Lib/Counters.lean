import AudioCrash.Lib.Loop
import Mathlib.Algebra.BigOperators.Intervals
import Mathlib.Algebra.Order.BigOperators.Group.Finset
import Mathlib.Data.Multiset.Filter
import Mathlib.Data.Nat.Cast.Basic
import Mathlib.Logic.Function.Basic

/-!
# Tables of 64-bit counters

Counting the elements of a list by their keys, and summing a table, in machine words. Both
are exact modulo `2 ^ 64`, and a sum below `2 ^ 64` is exact.

## Main definitions

* `increment`, `foldl_increment` — counting by keys.
* `wordSum`, `toNat_wordSum` — summing in words.
* `sum_mul_countP` — a weighted sum over the keys is a sum over the elements.
-/

namespace AudioCrash.Counters

universe u v

/-! ## Counting -/

section increment
variable {κ : Type u} [DecidableEq κ] {β : Type v} (key : β → κ)

/-- `++table[key(x)]`. -/
def increment (table : κ → UInt64) (x : β) : κ → UInt64 :=
  Function.update table (key x) (table (key x) + 1)

/-- **A counter is the number of elements with its key.** -/
theorem foldl_increment (table : κ → UInt64) (xs : List β) (k : κ) :
    xs.foldl (increment key) table k =
      table k + UInt64.ofNat (xs.countP fun x => key x = k) := by
  induction xs generalizing table with
  | nil => simp
  | cons x xs ih =>
    rw [List.foldl_cons, ih, List.countP_cons, UInt64.ofNat_add]
    by_cases hk : key x = k
    · subst hk
      simp [increment, UInt64.add_assoc, UInt64.add_comm]
    · simp [increment, hk, Function.update_of_ne (Ne.symm hk)]

end increment

/-! ## Summing -/

section wordSum
variable (f : ℕ → UInt64)

/-- `for (int i = 0; i < n; ++i) sum += f(i)`. -/
def wordSum (n : ℕ) : UInt64 := forLoop 0 n (fun i sum => sum + f i) 0

@[simp] theorem wordSum_succ (n : ℕ) : wordSum f (n + 1) = wordSum f n + f n :=
  forLoop_succ (Nat.zero_le n) _ _

/-- Two sums in one loop. -/
theorem forLoop_wordSum (g : ℕ → UInt64) (n : ℕ) :
    forLoop 0 n (fun i sums => (sums.1 + f i, sums.2 + g i)) (0, 0) =
      (wordSum f n, wordSum g n) := by
  induction n with
  | zero => rfl
  | succ n ih => rw [forLoop_succ (Nat.zero_le n), ih, wordSum_succ, wordSum_succ]

/-- The sum wraps. -/
theorem toNat_wordSum (n : ℕ) :
    (wordSum f n).toNat = (∑ i ∈ Finset.range n, (f i).toNat) % 2 ^ 64 := by
  induction n with
  | zero => rfl
  | succ n ih =>
    rw [wordSum_succ, UInt64.toNat_add, ih, Finset.sum_range_succ, Nat.mod_add_mod]

theorem toNat_wordSum_of_lt {n : ℕ} (h : ∑ i ∈ Finset.range n, (f i).toNat < 2 ^ 64) :
    (wordSum f n).toNat = ∑ i ∈ Finset.range n, (f i).toNat := by
  rw [toNat_wordSum, Nat.mod_eq_of_lt h]

end wordSum

/-! ## Sums over the keys -/

section sums
variable {β : Type v} (key : β → ℕ) (g : ℕ → ℕ) (n : ℕ)

theorem sum_mul_ite (x : β) :
    (∑ k ∈ Finset.range n, g k * if key x = k then 1 else 0) =
      if key x < n then g (key x) else 0 := by
  simp only [mul_ite, mul_one, mul_zero, Finset.sum_ite_eq, Finset.mem_range]

/-- The keys below `n`, weighted: every element with such a key is weighted once. -/
theorem sum_mul_countP (s : Multiset β) :
    ∑ k ∈ Finset.range n, g k * s.countP (fun x => key x = k) =
      ((s.filter fun x => key x < n).map fun x => g (key x)).sum := by
  induction s using Multiset.induction_on with
  | empty => simp
  | cons x s ih =>
    have hsplit : ∀ k, g k * (x ::ₘ s).countP (fun x => key x = k) =
        g k * s.countP (fun x => key x = k) + g k * if key x = k then 1 else 0 := by
      intro k
      rw [Multiset.countP_cons, Nat.mul_add]
    rw [Finset.sum_congr rfl fun k _ => hsplit k, Finset.sum_add_distrib, ih, sum_mul_ite]
    by_cases hx : key x < n
    · rw [if_pos hx, Multiset.filter_cons_of_pos (p := fun x => key x < n) _ hx,
        Multiset.map_cons, Multiset.sum_cons, Nat.add_comm]
    · rw [if_neg hx, Multiset.filter_cons_of_neg (p := fun x => key x < n) _ hx, Nat.add_zero]

/-- The elements with a key below `n`. -/
theorem sum_countP (s : Multiset β) :
    ∑ k ∈ Finset.range n, s.countP (fun x => key x = k) =
      (s.filter fun x => key x < n).card := by
  have hsum := sum_mul_countP key (fun _ => 1) n s
  simpa only [one_mul, Multiset.map_const', Multiset.sum_replicate, nsmul_one,
    Nat.cast_id] using hsum

end sums
end AudioCrash.Counters
