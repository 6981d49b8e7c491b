import AudioCrash.EditPass.Replay

/-!
# The positions in the triples

The third field of a triple is a position in `word2`. In the interior of the table it is the
index of the letter removed or replaced, and for an insertion that of the last letter consumed
before it. The borders follow another convention: a removal in the first row has position 0,
and an insertion in the first column the index of the letter of `word1`. Which cells of the
borders the script goes through depends on the distances of the prefixes.

## Main definitions

* `place`, `Placed` — the convention of the interior, read off the replay.
* `borderCell` — where the way back through the table meets the border.
* `Uniform`, `uniform_iff` — for which words all positions follow the convention.
-/

namespace AudioCrash.EditPass

open EditScript

/-! ## The convention of the interior -/

/-- Where a triple edits `word2` once the triples before it have been executed: the letter
that it removes or replaces, or the last letter consumed before it inserts. -/
def place (word1 word2 : List ℤ) (pre : List Triple) (t : Triple) : Option ℤ :=
  (pre.foldlM (replayStep word1 word2) ⟨0, 0, []⟩).map fun c =>
    if t.left = -2 then c.j + (t.right - c.i) - 1 else t.right

/-- Every position is the place of the edit. -/
def Placed (word1 word2 : List ℤ) (ts : List Triple) : Prop :=
  ∀ pre t post, ts = pre ++ t :: post → place word1 word2 pre t = some t.pos

/-- The positions of a script follow one convention, so that equal positions mean equal
places. -/
structure Uniform (word1 word2 : List ℤ) (ts : List Triple) : Prop where
  placed : Placed word1 word2 ts
  same : ∀ pre t post pre' t' post', ts = pre ++ t :: post → ts = pre' ++ t' :: post' →
    t.pos = t'.pos → place word1 word2 pre t = place word1 word2 pre' t'

variable {word1 word2 : List ℤ} {ts : List Triple} {i j : ℕ}

theorem uniform_iff_placed : Uniform word1 word2 ts ↔ Placed word1 word2 ts := by
  refine ⟨Uniform.placed, fun h => ⟨h, ?_⟩⟩
  intro pre t post pre' t' post' hsplit hsplit' hpos
  rw [h pre t post hsplit, h pre' t' post' hsplit', hpos]

theorem placed_nil : Placed word1 word2 [] := by
  intro pre t post h
  simp at h

theorem placed_concat {t : Triple} :
    Placed word1 word2 (ts ++ [t]) ↔
      Placed word1 word2 ts ∧ place word1 word2 ts t = some t.pos := by
  constructor
  · intro h
    refine ⟨?_, h ts t [] rfl⟩
    intro pre t' post hsplit
    exact h pre t' (post ++ [t]) (by simp [hsplit])
  · rintro ⟨h, ht⟩ pre t' post hsplit
    rcases List.eq_nil_or_concat post with rfl | ⟨post, t'', rfl⟩
    · rcases List.append_inj' hsplit rfl with ⟨rfl, hlast⟩
      cases hlast
      exact ht
    · have hsplit' : ts ++ [t] = (pre ++ t' :: post) ++ [t''] := by simpa using hsplit
      exact h pre t' post (List.append_inj' hsplit' rfl).1

/-! ## The places of a walk -/

/-- The walk has consumed the letters of `word2` before `j`. -/
theorem Spells.place_insert (h : Spells word1 word2 ts i j) (p : ℤ) :
    place word1 word2 ts ⟨-2, i, p⟩ = some ((j : ℤ) - 1) := by
  rcases h.exists_behind with ⟨c, hc, hb⟩
  have hdiag := hb.diagonal
  rw [place, hc, Option.map_some, if_pos rfl, Option.some.injEq]
  dsimp only
  omega

theorem Spells.place_other (h : Spells word1 word2 ts i j) {left : ℤ} (hleft : left ≠ -2)
    (right p : ℤ) : place word1 word2 ts ⟨left, right, p⟩ = some right := by
  rcases h.exists_behind with ⟨c, hc, _⟩
  rw [place, hc, Option.map_some, if_neg hleft]

/-! ## The way back through the table -/

/-- Where the way back from the cell `(i, j)` meets the border: upwards where the letter of
`word1` may be inserted last, else to the left where that of `word2` may be removed last, else
along the diagonal. -/
noncomputable def borderCell (word1 word2 : List ℤ) : ℕ → ℕ → ℕ × ℕ
  | 0, j => (0, j)
  | i + 1, 0 => (i + 1, 0)
  | i + 1, j + 1 =>
    if editDistance (word1.take (i + 1)) (word2.take (j + 1)) =
        editDistance (word1.take i) (word2.take (j + 1)) + 1 then
      borderCell word1 word2 i (j + 1)
    else if editDistance (word1.take (i + 1)) (word2.take (j + 1)) =
        editDistance (word1.take (i + 1)) (word2.take j) + 1 then
      borderCell word1 word2 (i + 1) j
    else borderCell word1 word2 i j
  termination_by i j => i + j

/-- The way back ends in the first cell, or in the one to its right. -/
def AtStart (c : ℕ × ℕ) : Prop := c = (0, 0) ∨ c = (0, 1)

/-- A finished cell is right, and its positions follow the convention exactly when the way back
from it ends at the start. -/
structure CellPlaced (word1 word2 : List ℤ) (t : Tables) (i j : ℕ) : Prop where
  ok : CellOk word1 word2 t i j
  placed : Placed word1 word2 (t.pass i j) ↔ AtStart (borderCell word1 word2 i j)

section steps
variable {t : Tables}

theorem cellPlaced_init : CellPlaced word1 word2 Tables.init 0 0 := by
  refine ⟨cellOk_init, ?_⟩
  have hpass : Tables.init.pass 0 0 = [] := by simp [Tables.init]
  rw [hpass, borderCell]
  exact iff_of_true placed_nil (Or.inl rfl)

/-- In the first row, the first position is right and all others are not. -/
theorem borderRow_placed (h : CellPlaced word1 word2 t 0 j) (hj : j < word2.length) :
    CellPlaced word1 word2 (borderRow (j + 1) t) 0 (j + 1) := by
  refine ⟨borderRow_spec h.ok hj, ?_⟩
  have hpass : (borderRow (j + 1) t).pass 0 (j + 1) = t.pass 0 j ++ [⟨-1, j, 0⟩] := by
    simp [borderRow]
  have hplaced := h.placed
  rw [borderCell] at hplaced
  rw [hpass, placed_concat, hplaced, h.ok.spells.place_other (by decide), borderCell]
  simp [AtStart]
  omega

/-- In the first column, no position is right. -/
theorem borderCol_placed (h : CellPlaced word1 word2 t i 0) (hi : i < word1.length) :
    CellPlaced word1 word2 (borderCol (i + 1) t) (i + 1) 0 := by
  refine ⟨borderCol_spec h.ok hi, ?_⟩
  have hpass : (borderCol (i + 1) t).pass (i + 1) 0 = t.pass i 0 ++ [⟨-2, i, i⟩] := by
    simp [borderCol]
  rw [hpass, placed_concat, h.ok.spells.place_insert, borderCell]
  simp [AtStart]

/-- The interior follows the convention, so that a position of its script is wrong only where
one of the border is. -/
theorem cell_placed (h1 : CellPlaced word1 word2 t i (j + 1))
    (h2 : CellPlaced word1 word2 t (i + 1) j) (h3 : CellPlaced word1 word2 t i j)
    (hi : i < word1.length) (hj : j < word2.length) :
    CellPlaced word1 word2 (cell word1 word2 (i + 1) (j + 1) t) (i + 1) (j + 1) := by
  refine ⟨cell_spec h1.ok h2.ok h3.ok hi hj, ?_⟩
  rw [cell_eq h1.ok h2.ok h3.ok hi hj, borderCell]
  simp only [Table.set_self]
  split_ifs with hinsert hremove heq
  · rw [placed_concat, h1.ok.spells.place_insert, h1.placed]
    simp
  · rw [placed_concat, h2.ok.spells.place_other (by decide), h2.placed]
    simp
  · exact h3.placed
  · rw [placed_concat, h3.ok.spells.place_other (by omega), h3.placed]
    simp

end steps

theorem cellPlaced_rules : CellRules word1 word2 (CellPlaced word1 word2) where
  congr h hdis hpass := ⟨h.ok.congr hdis hpass, by rw [hpass, h.placed]⟩
  init := cellPlaced_init
  row := borderRow_placed
  col := borderCol_placed
  cell := cell_placed

/-- **The positions follow one convention exactly when the way back from the last cell meets
the border at its start**: the script does not begin with an insertion, nor with two removals. -/
theorem uniform_iff (word1 word2 : List ℤ) :
    Uniform word1 word2 (editPass word1 word2) ↔
      borderCell word1 word2 word1.length word2.length = (0, 0) ∨
        borderCell word1 word2 word1.length word2.length = (0, 1) := by
  rw [uniform_iff_placed]
  exact (cellPlaced_rules.fill le_rfl le_rfl).placed

/-- An insertion into an empty word has position 0 in place of -1, and of two removals both
have position 0. -/
theorem not_uniform_border :
    (editPass [1] [] = [⟨-2, 0, 0⟩] ∧ place [1] [] [] ⟨-2, 0, 0⟩ = some (-1)) ∧
      ¬ Uniform [1] [] (editPass [1] []) ∧
      (editPass [] [1, 2] = [⟨-1, 0, 0⟩, ⟨-1, 1, 0⟩] ∧
        place [] [1, 2] [⟨-1, 0, 0⟩] ⟨-1, 1, 0⟩ = some 1) ∧
      ¬ Uniform [] [1, 2] (editPass [] [1, 2]) := by
  have hinsert : editPass [1] [] = [⟨-2, 0, 0⟩] := by decide
  have hremove : editPass [] [1, 2] = [⟨-1, 0, 0⟩, ⟨-1, 1, 0⟩] := by decide
  refine ⟨⟨hinsert, by decide⟩, ?_, ⟨hremove, by decide⟩, ?_⟩
  · intro h
    exact absurd (h.placed [] ⟨-2, 0, 0⟩ [] hinsert) (by decide)
  · intro h
    exact absurd (h.placed [⟨-1, 0, 0⟩] ⟨-1, 1, 0⟩ [] hremove) (by decide)

end AudioCrash.EditPass
