import AudioCrash.Lib.EditScript

/-!
# The edit distance is a metric

Scripts run one after the other give the triangle inequality, and an alignment read from the
other side gives symmetry. Letters that the two words share at their ends cost nothing.

## Main definitions

* `Column.swap`, `Alignment.swap` — the alignment from the other side.
* `editDistance_eq_zero_iff`, `editDistance_comm`, `editDistance_triangle` — the metric.
* `editDistance_append_append`, `editDistance_frame` — concatenation, and a shared frame.
-/

namespace AudioCrash.EditScript

universe u
variable {α : Type u}

/-! ## An alignment from the other side -/

/-- The column with target and source exchanged. -/
def Column.swap : Column α → Column α
  | .keep a => .keep a
  | .replace a b => .replace b a
  | .insert a => .remove a
  | .remove b => .insert b

namespace Column

@[simp] theorem target_swap (x : Column α) : x.swap.target = x.source := by cases x <;> rfl
@[simp] theorem source_swap (x : Column α) : x.swap.source = x.target := by cases x <;> rfl
@[simp] theorem cost_swap (x : Column α) : x.swap.cost = x.cost := by cases x <;> rfl

@[simp] theorem reverse_target (x : Column α) : x.target.reverse = x.target := by
  cases x <;> rfl
@[simp] theorem reverse_source (x : Column α) : x.source.reverse = x.source := by
  cases x <;> rfl

end Column

namespace Alignment

/-- The alignment with target and source exchanged. -/
def swap (c : Alignment α) : Alignment α := c.map Column.swap

@[simp] theorem target_swap (c : Alignment α) : target (swap c) = source c := by
  simp [swap, target, source, List.flatMap_map]

@[simp] theorem source_swap (c : Alignment α) : source (swap c) = target c := by
  simp [swap, target, source, List.flatMap_map]

@[simp] theorem cost_swap (c : Alignment α) : cost (swap c) = cost c := by
  simp [swap, cost, Function.comp_def]

@[simp] theorem target_reverse (c : Alignment α) :
    target (List.reverse c) = (target c).reverse := by
  induction c with
  | nil => rfl
  | cons x c ih => simp [ih]

@[simp] theorem source_reverse (c : Alignment α) :
    source (List.reverse c) = (source c).reverse := by
  induction c with
  | nil => rfl
  | cons x c ih => simp [ih]

@[simp] theorem cost_reverse (c : Alignment α) : cost (List.reverse c) = cost c := by
  simp [cost]

/-- Only kept letters are free. -/
theorem target_eq_source {c : Alignment α} (h : cost c = 0) : target c = source c := by
  induction c with
  | nil => rfl
  | cons x c ih =>
    rw [cost_cons, Nat.add_eq_zero_iff] at h
    cases x with
    | keep a => rw [target_cons, source_cons, ih h.2]; rfl
    | replace a b => exact absurd h.1 one_ne_zero
    | insert a => exact absurd h.1 one_ne_zero
    | remove b => exact absurd h.1 one_ne_zero

end Alignment

/-- One script after the other. -/
theorem runScript_append (s t : List (Edit α)) (w : List α) :
    runScript (s ++ t) w = (runScript s w).bind (runScript t) := by
  induction s generalizing w with
  | nil => rfl
  | cons e s ih =>
    rw [List.cons_append, runScript_cons, runScript_cons, Option.bind_assoc]
    congr
    ext v : 1
    exact ih v

/-! ## The metric -/

open AudioCrash.EditScript.Alignment

@[simp] theorem editDistance_self (xs : List α) : editDistance xs xs = 0 := by
  have h := editDistance_le_cost (keeps xs)
  rw [target_keeps, source_keeps, cost_keeps] at h
  exact Nat.le_zero.1 h

theorem editDistance_eq_zero_iff {xs ys : List α} : editDistance xs ys = 0 ↔ xs = ys := by
  constructor
  · intro h
    obtain ⟨c, rfl, rfl, hc⟩ := exists_cost_eq_editDistance xs ys
    exact target_eq_source (hc.trans h)
  · rintro rfl
    exact editDistance_self xs

theorem editDistance_comm (xs ys : List α) : editDistance xs ys = editDistance ys xs := by
  have hle : ∀ xs ys : List α, editDistance ys xs ≤ editDistance xs ys := by
    intro xs ys
    obtain ⟨c, rfl, rfl, hc⟩ := exists_cost_eq_editDistance xs ys
    have h := editDistance_le_cost (swap c)
    rwa [target_swap, source_swap, cost_swap, hc] at h
  exact le_antisymm (hle ys xs) (hle xs ys)

/-- A least script to `ys` and a least one from there. -/
theorem editDistance_triangle (xs ys zs : List α) :
    editDistance xs zs ≤ editDistance xs ys + editDistance ys zs := by
  obtain ⟨s, hs, hrun⟩ := (isLeast_editDistance ys zs).1
  obtain ⟨t, ht, hrun'⟩ := (isLeast_editDistance xs ys).1
  refine (isLeast_editDistance xs zs).2 ⟨s ++ t, ?_, ?_⟩
  · rw [List.length_append, hs, ht, Nat.add_comm]
  · rw [runScript_append, hrun, Option.bind_some, hrun']

/-! ## Concatenation -/

theorem editDistance_append_append (xs xs' ys ys' : List α) :
    editDistance (xs ++ xs') (ys ++ ys') ≤ editDistance xs ys + editDistance xs' ys' := by
  obtain ⟨c, rfl, rfl, hc⟩ := exists_cost_eq_editDistance xs ys
  obtain ⟨d, rfl, rfl, hd⟩ := exists_cost_eq_editDistance xs' ys'
  have h := editDistance_le_cost (c ++ d)
  rwa [target_append, source_append, cost_append, hc, hd] at h

@[simp] theorem editDistance_reverse (xs ys : List α) :
    editDistance xs.reverse ys.reverse = editDistance xs ys := by
  have hle : ∀ xs ys : List α, editDistance xs.reverse ys.reverse ≤ editDistance xs ys := by
    intro xs ys
    obtain ⟨c, rfl, rfl, hc⟩ := exists_cost_eq_editDistance xs ys
    have h := editDistance_le_cost (List.reverse c)
    rwa [target_reverse, source_reverse, cost_reverse, hc] at h
  have hge := hle xs.reverse ys.reverse
  rw [List.reverse_reverse, List.reverse_reverse] at hge
  exact le_antisymm (hle xs ys) hge

/-- A letter in front of the source is one edit more at most. -/
theorem editDistance_le_cons (xs ys : List α) (a : α) :
    editDistance xs ys ≤ editDistance xs (a :: ys) + 1 := by
  have hfront : editDistance (a :: ys) ys ≤ 1 := by
    have h := editDistance_le_cost (.insert a :: keeps ys)
    simpa [Column.target, Column.source, Column.cost] using h
  have htriangle := editDistance_triangle xs (a :: ys) ys
  omega

/-- A letter that both words start with is kept. -/
theorem editDistance_cons_cons (a : α) (xs ys : List α) :
    editDistance (a :: xs) (a :: ys) = editDistance xs ys := by
  apply le_antisymm
  · have h := editDistance_append_append [a] xs [a] ys
    rwa [editDistance_self, Nat.zero_add] at h
  · obtain ⟨c, ht, hs, hc⟩ := exists_cost_eq_editDistance (a :: xs) (a :: ys)
    rw [← hc]
    cases c with
    | nil => exact absurd ht (List.cons_ne_nil a xs).symm
    | cons x c =>
      -- a first column that does not keep `a` costs what the letter is worth
      cases x with
      | keep b =>
        obtain ⟨-, rfl⟩ : b = a ∧ target c = xs := by simpa [Column.target] using ht
        obtain ⟨-, rfl⟩ : b = a ∧ source c = ys := by simpa [Column.source] using hs
        simpa [Column.cost] using editDistance_le_cost c
      | replace b b' =>
        obtain ⟨-, rfl⟩ : b = a ∧ target c = xs := by simpa [Column.target] using ht
        obtain ⟨-, rfl⟩ : b' = a ∧ source c = ys := by simpa [Column.source] using hs
        exact (editDistance_le_cost c).trans (by simp)
      | insert b =>
        obtain ⟨-, rfl⟩ : b = a ∧ target c = xs := by simpa [Column.target] using ht
        have hs' : source c = a :: ys := by simpa [Column.source] using hs
        have hle := editDistance_le_cost c
        have hcons := editDistance_le_cons (target c) ys a
        rw [← hs'] at hcons
        rw [cost_cons]
        change _ ≤ 1 + cost c
        omega
      | remove b =>
        obtain ⟨-, rfl⟩ : b = a ∧ source c = ys := by simpa [Column.source] using hs
        have ht' : target c = a :: xs := by simpa [Column.target] using ht
        have hle := editDistance_le_cost c
        have hcons := editDistance_le_cons (source c) xs a
        rw [← ht', editDistance_comm, editDistance_comm (source c)] at hcons
        rw [cost_cons]
        change _ ≤ 1 + cost c
        omega

theorem editDistance_append_left (p xs ys : List α) :
    editDistance (p ++ xs) (p ++ ys) = editDistance xs ys := by
  induction p with
  | nil => rfl
  | cons a p ih => rw [List.cons_append, List.cons_append, editDistance_cons_cons, ih]

theorem editDistance_append_right (xs ys s : List α) :
    editDistance (xs ++ s) (ys ++ s) = editDistance xs ys := by
  rw [← editDistance_reverse, List.reverse_append, List.reverse_append,
    editDistance_append_left, editDistance_reverse]

/-- **What the words share at both ends costs nothing.** -/
theorem editDistance_frame (p xs ys s : List α) :
    editDistance (p ++ xs ++ s) (p ++ ys ++ s) = editDistance xs ys := by
  rw [editDistance_append_right, editDistance_append_left]

/-- The words differ in length by one letter per edit at most. -/
theorem length_le_add_editDistance (xs ys : List α) :
    xs.length ≤ ys.length + editDistance xs ys := by
  obtain ⟨c, rfl, rfl, hc⟩ := exists_cost_eq_editDistance xs ys
  rw [← hc]
  exact length_target_le c

end AudioCrash.EditScript
