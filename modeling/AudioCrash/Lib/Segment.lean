import Mathlib.Data.List.TakeDrop
import Mathlib.Data.Int.Notation
import Mathlib.Algebra.Order.Ring.Int
import Mathlib.Tactic.Common

/-!
# Contiguous pieces of a list

Two ways to cut a list. `slice a b` takes the positions from `a` up to `b`, where both
borders are any integers: a border outside the list is moved to its end. Slicing commutes
with cutting the list into pieces first (`flatten_slicePieces`), each piece being sliced
relative to its own start.

`Blocks F l cs` says that `cs` are the blocks of `l`: full blocks of `F` elements, then a
last block that is not empty and not longer. There is only one such list (`Blocks.unique`).

## Main definitions

* `slice a b l`, `slice_append`, `slice_slice_adjacent` — slices.
* `slicePieces`, `flatten_slicePieces` — slicing piece by piece.
* `forall_eq_append_cons_iff` — what holds at every place of a list.
* `Blocks F l cs`, `Blocks.unique` — blocks.
-/

namespace AudioCrash.Segment

universe u
variable {α : Type u}

/-! ## Slices -/

/-- The elements at the positions from `a` up to but excluding `b`. -/
def slice (a b : ℤ) (l : List α) : List α := (l.drop a.toNat).take (b.toNat - a.toNat)

@[simp] theorem slice_nil (a b : ℤ) : slice a b ([] : List α) = [] := by simp [slice]

/-- The positions a slice really takes. -/
theorem slice_eq (a b : ℤ) (l : List α) :
    slice a b l = (l.drop (max a 0).toNat).take (min b l.length - max a 0).toNat := by
  have hdrop : (max a 0).toNat = a.toNat := by omega
  rw [slice, hdrop]
  by_cases hb : b.toNat ≤ l.length
  · congr 1
    omega
  · rw [List.take_of_length_le (by simp; omega), List.take_of_length_le (by simp; omega)]

/-- **A slice of two pieces is the slices of the pieces.** -/
theorem slice_append (a b : ℤ) (l r : List α) :
    slice a b (l ++ r) = slice a b l ++ slice (a - l.length) (b - l.length) r := by
  have hdrop : (a - l.length).toNat = a.toNat - l.length := by omega
  simp only [slice, List.drop_append, List.take_append, List.length_drop, hdrop]
  congr 2
  omega

/-- **Adjacent slices join.** -/
theorem slice_slice_adjacent {a b c : ℤ} (hab : a ≤ b) (hbc : b ≤ c) (l : List α) :
    slice a b l ++ slice b c l = slice a c l := by
  have hsplit : c.toNat - a.toNat = (b.toNat - a.toNat) + (c.toNat - b.toNat) := by omega
  have hdrop : b.toNat = a.toNat + (b.toNat - a.toNat) := by omega
  simp only [slice]
  rw [hsplit, List.take_add, List.drop_drop, ← hdrop]

/-- The borders of a slice may be counted in units of `u` elements. -/
theorem slice_mul (a b : ℤ) {n u : ℕ} {l : List α} (hl : l.length = n * u) :
    slice (a * u) (b * u) l =
      (l.drop ((max a 0).toNat * u)).take ((min b n - max a 0).toNat * u) := by
  have hu : (0 : ℤ) ≤ u := Int.natCast_nonneg u
  have hmax : max (a * u) 0 = max a 0 * u := by rw [max_mul_of_nonneg _ _ hu, zero_mul]
  have hmin : min (b * u) ((n * u : ℕ) : ℤ) = min b n * u := by
    rw [min_mul_of_nonneg _ _ hu, Nat.cast_mul]
  have htoNat : ∀ x : ℤ, (x * u).toNat = x.toNat * u := by
    intro x
    by_cases hx : 0 ≤ x
    · rw [Int.toNat_mul hx hu, Int.toNat_natCast]
    · rw [Int.toNat_of_nonpos (Int.mul_nonpos_of_nonpos_of_nonneg (by omega) hu),
        Int.toNat_of_nonpos (by omega), zero_mul]
  rw [slice_eq, hl, hmax, hmin, ← sub_mul, htoNat, htoNat]

/-- Slice a list of pieces, each relative to its own start. -/
def slicePieces (a b : ℤ) : List (List α) → List (List α)
  | [] => []
  | l :: ls => slice a b l :: slicePieces (a - l.length) (b - l.length) ls

/-- **Slicing piece by piece loses and duplicates nothing.** -/
theorem flatten_slicePieces (a b : ℤ) (ls : List (List α)) :
    (slicePieces a b ls).flatten = slice a b ls.flatten := by
  induction ls generalizing a b with
  | nil => simp [slicePieces]
  | cons l ls ih => rw [slicePieces, List.flatten_cons, List.flatten_cons, ih, slice_append]

/-! ## Places -/

/-- What holds at every place of a list holds of its head and at every place behind it. -/
theorem forall_eq_append_cons_iff (P : List α → α → Prop) (a : α) (l : List α) :
    (∀ fs f gs, a :: l = fs ++ f :: gs → P fs f) ↔
      P [] a ∧ ∀ fs f gs, l = fs ++ f :: gs → P (a :: fs) f := by
  constructor
  · intro h
    refine ⟨h [] a l rfl, fun fs f gs hl => h (a :: fs) f gs ?_⟩
    rw [hl, List.cons_append]
  · rintro ⟨hhead, htail⟩ fs f gs hl
    cases fs with
    | nil =>
      obtain ⟨rfl, -⟩ := List.cons.inj hl
      exact hhead
    | cons g fs =>
      obtain ⟨rfl, hrest⟩ := List.cons.inj hl
      exact htail fs f gs hrest

theorem forall_eq_singleton_iff (P : List α → α → Prop) (a : α) :
    (∀ fs f gs, [a] = fs ++ f :: gs → P fs f) ↔ P [] a := by
  rw [forall_eq_append_cons_iff]
  exact and_iff_left fun fs f gs hl => by simp at hl

/-! ## Blocks -/

/-- `cs` are the blocks of `l`: all but the last have `F` elements, and the last has between
one and `F`. -/
structure Blocks (F : ℕ) (l : List α) (cs : List (List α)) : Prop where
  flatten : cs.flatten = l
  full : ∀ c ∈ cs.dropLast, c.length = F
  last : ∀ c ∈ cs.getLast?, 1 ≤ c.length ∧ c.length ≤ F

namespace Blocks
variable {F : ℕ} {l : List α} {cs ds : List (List α)}

theorem nil (F : ℕ) : Blocks F ([] : List α) [] := by
  constructor <;> simp

/-- Full blocks and a last one. -/
theorem concat {r : List α} (hfull : ∀ c ∈ cs, c.length = F) (h1 : 1 ≤ r.length)
    (hF : r.length ≤ F) : Blocks F (cs.flatten ++ r) (cs ++ [r]) := by
  refine ⟨by simp, by simpa using hfull, ?_⟩
  intro c hc
  rw [List.getLast?_append, List.getLast?_singleton] at hc
  rcases hc with ⟨⟩
  exact ⟨h1, hF⟩

/-- No element is in no block. -/
theorem eq_nil (h : Blocks F [] cs) : cs = [] := by
  rcases List.eq_nil_or_concat cs with rfl | ⟨cs, c, rfl⟩
  · rfl
  · have hlast := h.last c (by simp)
    have hflat := h.flatten
    simp only [List.concat_eq_append, List.flatten_append, List.append_eq_nil_iff] at hflat
    have hc : c = [] := by simpa using hflat.2
    simp [hc] at hlast

/-- The first block is the first `F` elements, and the others are the blocks of the rest. -/
theorem of_cons {c : List α} (h : Blocks F l (c :: cs)) :
    c = l.take F ∧ Blocks F (l.drop F) cs := by
  have hflat := h.flatten
  rw [List.flatten_cons] at hflat
  cases cs with
  | nil =>
    have hlast := h.last c rfl
    have hl : c = l := by simpa using hflat
    rw [← hl, List.take_of_length_le hlast.2, List.drop_of_length_le hlast.2]
    exact ⟨rfl, nil F⟩
  | cons d ds =>
    have hc : c.length = F := h.full c (by simp)
    rw [← hflat, List.take_left' hc, List.drop_left' hc]
    refine ⟨rfl, rfl, ?_, ?_⟩
    · intro e he
      exact h.full e (by simp [he])
    · intro e he
      exact h.last e (by simpa using he)

theorem ne_nil {c : List α} (h : Blocks F l (c :: cs)) : l ≠ [] := by
  intro hl
  subst hl
  simpa using h.eq_nil

/-- **A list has one list of blocks.** -/
theorem unique (h : Blocks F l cs) (h' : Blocks F l ds) : cs = ds := by
  induction cs generalizing l ds with
  | nil =>
    have hl : l = [] := by simpa using h.flatten.symm
    subst hl
    exact h'.eq_nil.symm
  | cons c cs ih =>
    cases ds with
    | nil =>
      have hl : l = [] := by simpa using h'.flatten.symm
      exact absurd hl h.ne_nil
    | cons d ds =>
      rw [h.of_cons.1, h'.of_cons.1, ih h.of_cons.2 h'.of_cons.2]

/-- Every block has at most `F` elements. -/
theorem length_le (h : Blocks F l cs) : ∀ c ∈ cs, c.length ≤ F := by
  induction cs generalizing l with
  | nil => simp
  | cons c cs ih =>
    intro d hd
    rcases List.mem_cons.1 hd with rfl | hd
    · rw [h.of_cons.1]
      exact List.length_take_le F l
    · exact ih h.of_cons.2 d hd

/-- The length of the last block is the residue of the length of the list. -/
theorem length_getLast (h : Blocks F l cs) :
    ∀ c ∈ cs.getLast?, c.length = (l.length - 1) % F + 1 := by
  induction cs generalizing l with
  | nil => simp
  | cons c cs ih =>
    have hcons := h.of_cons
    cases cs with
    | nil =>
      have hlast := h.last c rfl
      have hl : c = l := by simpa using h.flatten
      intro d hd
      have hd' : d = c := by simpa using hd.symm
      rw [hd', ← hl, Nat.mod_eq_of_lt (by omega)]
      omega
    | cons d ds =>
      have hrest : l.drop F ≠ [] := hcons.2.ne_nil
      have hlt : F < l.length := by
        by_contra hle
        exact hrest (List.drop_of_length_le (by omega))
      have hlen : (l.drop F).length - 1 = l.length - 1 - F := by
        rw [List.length_drop]
        omega
      intro e he
      rw [ih hcons.2 e (by simpa using he), hlen, ← Nat.mod_eq_sub_mod (by omega)]

end Blocks
end AudioCrash.Segment
