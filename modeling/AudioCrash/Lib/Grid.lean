import AudioCrash.Lib.Loop
import Mathlib.Logic.Function.Basic

/-!
# Loops that update a grid of cells in place

A store is a function from addresses to values. `updateRow` runs once over the cells of a
row and `updateGrid` over the rows of a grid. Where different indices name different cells,
every cell is updated exactly once, from its old value, and nothing else changes; the order
of the two loops does not show in these rules.

## Main definitions

* `updateRow`, `updateRow_cell`, `updateRow_other`
* `updateGrid`, `updateGrid_cell`, `updateGrid_other`
-/

namespace AudioCrash.Grid

universe u v
variable {κ : Type v} [DecidableEq κ] {α : Type u}

/-! ## A row -/

section row
variable (n : ℕ) (cell : ℕ → κ) (g : ℕ → α → α) (mem : κ → α)

/-- `for (int b = 0; b < n; ++b) mem[cell(b)] = g(b, mem[cell(b)])`. -/
def updateRow : κ → α :=
  forLoop 0 n (fun b mem => Function.update mem (cell b) (g b (mem (cell b)))) mem

/-- What is not in the row is unchanged. -/
theorem updateRow_other {x : κ} (h : ∀ b < n, x ≠ cell b) :
    updateRow n cell g mem x = mem x := by
  refine (forLoop_induction (Nat.zero_le n) _ mem
    (fun k (d : κ → α) => k ≤ n → d x = mem x) (fun _ => rfl) ?step) le_rfl
  case step =>
    intro k d _ hk hd hkn
    rw [Function.update_of_ne (h k hk)]
    exact hd (by omega)

/-- Every cell of the row is updated once. -/
theorem updateRow_cell (hinj : ∀ b < n, ∀ b' < n, cell b = cell b' → b = b') {b : ℕ}
    (hb : b < n) : updateRow n cell g mem (cell b) = g b (mem (cell b)) := by
  have hloop := forLoop_induction (Nat.zero_le n)
    (fun b mem => Function.update mem (cell b) (g b (mem (cell b)))) mem
    (fun k (d : κ → α) => k ≤ n →
      d (cell b) = if b < k then g b (mem (cell b)) else mem (cell b)) (by simp) ?step
  · simpa [updateRow, hb] using hloop le_rfl
  case step =>
    intro k d _ hk hd hkn
    have hd := hd (by omega)
    by_cases hbk : cell b = cell k
    · have : b = k := hinj b hb k hk hbk
      subst this
      simp [hd]
    · have hne : b ≠ k := by
        rintro rfl
        exact hbk rfl
      have hlt : b < k + 1 ↔ b < k := by omega
      rw [Function.update_of_ne hbk, hd]
      simp only [hlt]

end row

/-! ## A grid -/

section grid
variable (m n : ℕ) (cell : ℕ → ℕ → κ) (g : ℕ → ℕ → α → α) (mem : κ → α)

/-- The loop over the rows. -/
def updateGrid : κ → α :=
  forLoop 0 m (fun a mem => updateRow n (cell a) (g a) mem) mem

/-- What is not in the grid is unchanged. -/
theorem updateGrid_other {x : κ} (h : ∀ a < m, ∀ b < n, x ≠ cell a b) :
    updateGrid m n cell g mem x = mem x := by
  refine (forLoop_induction (Nat.zero_le m) _ mem
    (fun k (d : κ → α) => k ≤ m → d x = mem x) (fun _ => rfl) ?step) le_rfl
  case step =>
    intro k d _ hk hd hkm
    rw [updateRow_other n (cell k) (g k) d (h k hk)]
    exact hd (by omega)

/-- Every cell of the grid is updated once. -/
theorem updateGrid_cell
    (hinj : ∀ a < m, ∀ a' < m, ∀ b < n, ∀ b' < n, cell a b = cell a' b' → a = a' ∧ b = b')
    {a b : ℕ} (ha : a < m) (hb : b < n) :
    updateGrid m n cell g mem (cell a b) = g a b (mem (cell a b)) := by
  have hloop := forLoop_induction (Nat.zero_le m)
    (fun a mem => updateRow n (cell a) (g a) mem) mem
    (fun k (d : κ → α) => k ≤ m →
      d (cell a b) = if a < k then g a b (mem (cell a b)) else mem (cell a b)) (by simp) ?step
  · simpa [updateGrid, ha] using hloop le_rfl
  case step =>
    intro k d _ hk hd hkm
    have hd := hd (by omega)
    by_cases hak : a = k
    · subst hak
      have hrow : ∀ b < n, ∀ b' < n, cell a b = cell a b' → b = b' := by
        intro b hb b' hb' h
        exact (hinj a ha a ha b hb b' hb' h).2
      rw [updateRow_cell n (cell a) (g a) d hrow hb, hd]
      simp
    · have hother : ∀ b' < n, cell a b ≠ cell k b' := by
        intro b' hb' h
        exact hak (hinj a ha k hk b hb b' hb' h).1
      have hlt : a < k + 1 ↔ a < k := by omega
      rw [updateRow_other n (cell k) (g k) d hother, hd]
      simp only [hlt]

variable {g} in
/-- Updates that are the same for the rows that there are. -/
theorem updateGrid_congr {g' : ℕ → ℕ → α → α} (h : ∀ a < m, g a = g' a) :
    updateGrid m n cell g mem = updateGrid m n cell g' mem :=
  forLoop_congr (fun a _ ha => by rw [h a ha]) mem

end grid
end AudioCrash.Grid
