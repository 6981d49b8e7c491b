import Mathlib.Data.List.InsertIdx
import Mathlib.Order.Lattice.Nat
import Mathlib.Order.Bounds.Basic
import Mathlib.Tactic.Linarith

/-!
# Edit scripts, alignments and the edit distance

A script is a list of single-element edits, each naming a position of the word it
is applied to. `editDistance` is the least length of a script between two words,
over all scripts and with no recurrence in its definition.

An alignment is a list of columns, each consuming at most one letter of either
word. Alignments and scripts have the same least cost (`exists_script`,
`exists_alignment_of_runScript`), and an alignment can be taken apart at its last
column, which is where the recurrence `editDistance_concat` comes from.

## Main definitions

* `Edit`, `runScript` — single-element edits and their execution.
* `editDistance target source` — the least length of a script.
* `Column`, `Alignment.cost` — alignments and what they cost.
-/

namespace AudioCrash.EditScript

universe u
variable {α : Type u}

/-! ## Scripts -/

/-- One single-element edit, at a position of the word it is applied to. -/
inductive Edit (α : Type u) where
  /-- Put `a` in front of position `pos`. -/
  | insert (pos : ℕ) (a : α)
  /-- Take the letter at `pos` out. -/
  | remove (pos : ℕ)
  /-- Put `a` in place of the letter at `pos`. -/
  | replace (pos : ℕ) (a : α)
  deriving DecidableEq, Repr

/-- Apply one edit; `none` when its position is outside the word. -/
def Edit.apply : Edit α → List α → Option (List α)
  | .insert pos a, w => if pos ≤ w.length then some (w.insertIdx pos a) else none
  | .remove pos, w => if pos < w.length then some (w.eraseIdx pos) else none
  | .replace pos a, w => if pos < w.length then some (w.set pos a) else none

/-- Run a script from left to right. -/
def runScript : List (Edit α) → List α → Option (List α)
  | [], w => some w
  | e :: es, w => (e.apply w).bind (runScript es)

@[simp] theorem runScript_nil (w : List α) : runScript [] w = some w := rfl
@[simp] theorem runScript_cons (e : Edit α) (es : List (Edit α)) (w : List α) :
    runScript (e :: es) w = (e.apply w).bind (runScript es) := rfl

/-- The lengths of the scripts that turn `source` into `target`. -/
def scriptLengths (target source : List α) : Set ℕ :=
  {k | ∃ s : List (Edit α), s.length = k ∧ runScript s source = some target}

/-- The least length of a script that turns `source` into `target`. -/
noncomputable def editDistance (target source : List α) : ℕ :=
  sInf (scriptLengths target source)

theorem apply_insert_append (l r : List α) (a : α) :
    (Edit.insert l.length a).apply (l ++ r) = some (l ++ a :: r) := by
  have hsplit : (l ++ r).insertIdx l.length a = l ++ a :: r := by
    induction l with
    | nil => rfl
    | cons x l ih => simpa using ih
  simp [Edit.apply, hsplit]

theorem apply_remove_append (l r : List α) (b : α) :
    (Edit.remove l.length).apply (l ++ b :: r) = some (l ++ r) := by
  simp [Edit.apply, List.eraseIdx_append_of_length_le]

theorem apply_replace_append (l r : List α) (a b : α) :
    (Edit.replace l.length a).apply (l ++ b :: r) = some (l ++ a :: r) := by
  simp [Edit.apply]

/-- An edit that applies splits the word at its position, in one of three ways. -/
theorem split_of_apply {e : Edit α} {w w' : List α} (h : e.apply w = some w') :
    (∃ l r a, w = l ++ r ∧ w' = l ++ a :: r) ∨
      (∃ l r b, w = l ++ b :: r ∧ w' = l ++ r) ∨
      (∃ l r a b, w = l ++ b :: r ∧ w' = l ++ a :: r) := by
  cases e with
  | insert pos a =>
    by_cases hp : pos ≤ w.length
    · have hw : w = w.take pos ++ w.drop pos := (List.take_append_drop pos w).symm
      have hlen : (w.take pos).length = pos := by simpa using hp
      have happ := apply_insert_append (w.take pos) (w.drop pos) a
      rw [hlen, ← hw, h, Option.some.injEq] at happ
      exact Or.inl ⟨_, _, a, hw, happ⟩
    · simp [Edit.apply, hp] at h
  | remove pos =>
    by_cases hp : pos < w.length
    · have hw : w = w.take pos ++ w[pos] :: w.drop (pos + 1) := by simp
      have hlen : (w.take pos).length = pos := by simpa using hp.le
      have happ := apply_remove_append (w.take pos) (w.drop (pos + 1)) w[pos]
      rw [hlen, ← hw, h, Option.some.injEq] at happ
      exact Or.inr (Or.inl ⟨_, _, w[pos], hw, happ⟩)
    · simp [Edit.apply, hp] at h
  | replace pos a =>
    by_cases hp : pos < w.length
    · have hw : w = w.take pos ++ w[pos] :: w.drop (pos + 1) := by simp
      have hlen : (w.take pos).length = pos := by simpa using hp.le
      have happ := apply_replace_append (w.take pos) (w.drop (pos + 1)) a w[pos]
      rw [hlen, ← hw, h, Option.some.injEq] at happ
      exact Or.inr (Or.inr ⟨_, _, a, w[pos], hw, happ⟩)
    · simp [Edit.apply, hp] at h

/-! ## Alignments -/

/-- One column of an alignment: what it contributes to the target and what it
takes from the source. -/
inductive Column (α : Type u) where
  /-- A letter the two words share. -/
  | keep (a : α)
  /-- `a` of the target stands in place of `b` of the source. -/
  | replace (a b : α)
  /-- A letter of the target only. -/
  | insert (a : α)
  /-- A letter of the source only. -/
  | remove (b : α)
  deriving DecidableEq, Repr

namespace Column

/-- The target letters of a column. -/
def target : Column α → List α
  | .keep a => [a]
  | .replace a _ => [a]
  | .insert a => [a]
  | .remove _ => []

/-- The source letters of a column. -/
def source : Column α → List α
  | .keep a => [a]
  | .replace _ b => [b]
  | .insert _ => []
  | .remove b => [b]

/-- A kept letter is free; every other column is one edit. -/
def cost : Column α → ℕ
  | .keep _ => 0
  | _ => 1

end Column

/-- An alignment, column by column. -/
abbrev Alignment (α : Type u) := List (Column α)

namespace Alignment

/-- The word an alignment spells on the target side. -/
def target (c : Alignment α) : List α := c.flatMap Column.target
/-- The word an alignment spells on the source side. -/
def source (c : Alignment α) : List α := c.flatMap Column.source
/-- The number of edits of an alignment. -/
def cost (c : Alignment α) : ℕ := (c.map Column.cost).sum

@[simp] theorem target_nil : target ([] : Alignment α) = [] := rfl
@[simp] theorem source_nil : source ([] : Alignment α) = [] := rfl
@[simp] theorem cost_nil : cost ([] : Alignment α) = 0 := rfl

@[simp] theorem target_cons (x : Column α) (c : Alignment α) :
    target (x :: c) = x.target ++ target c := rfl
@[simp] theorem source_cons (x : Column α) (c : Alignment α) :
    source (x :: c) = x.source ++ source c := rfl
@[simp] theorem cost_cons (x : Column α) (c : Alignment α) :
    cost (x :: c) = x.cost + cost c := by simp [cost]

@[simp] theorem target_append (c d : Alignment α) : target (c ++ d) = target c ++ target d := by
  simp [target]
@[simp] theorem source_append (c d : Alignment α) : source (c ++ d) = source c ++ source d := by
  simp [source]
@[simp] theorem cost_append (c d : Alignment α) : cost (c ++ d) = cost c + cost d := by
  simp [cost]

/-- Every letter kept. -/
def keeps (w : List α) : Alignment α := w.map .keep
/-- Every letter inserted. -/
def inserts (w : List α) : Alignment α := w.map .insert
/-- Every letter removed. -/
def removes (w : List α) : Alignment α := w.map .remove

@[simp] theorem target_keeps (w : List α) : target (keeps w) = w := by
  induction w with
  | nil => rfl
  | cons a w ih => simpa [keeps, Column.target] using ih
@[simp] theorem source_keeps (w : List α) : source (keeps w) = w := by
  induction w with
  | nil => rfl
  | cons a w ih => simpa [keeps, Column.source] using ih
@[simp] theorem cost_keeps (w : List α) : cost (keeps w) = 0 := by
  induction w with
  | nil => rfl
  | cons a w ih => simpa [keeps, Column.cost] using ih

@[simp] theorem target_inserts (w : List α) : target (inserts w) = w := by
  induction w with
  | nil => rfl
  | cons a w ih => simpa [inserts, Column.target] using ih
@[simp] theorem source_inserts (w : List α) : source (inserts w) = [] := by
  induction w with
  | nil => rfl
  | cons a w ih => simpa [inserts, Column.source] using ih
@[simp] theorem cost_inserts (w : List α) : cost (inserts w) = w.length := by
  induction w with
  | nil => rfl
  | cons a w ih => simpa [inserts, Column.cost, Nat.add_comm 1] using ih

@[simp] theorem target_removes (w : List α) : target (removes w) = [] := by
  induction w with
  | nil => rfl
  | cons a w ih => simpa [removes, Column.target] using ih
@[simp] theorem source_removes (w : List α) : source (removes w) = w := by
  induction w with
  | nil => rfl
  | cons a w ih => simpa [removes, Column.source] using ih
@[simp] theorem cost_removes (w : List α) : cost (removes w) = w.length := by
  induction w with
  | nil => rfl
  | cons a w ih => simpa [removes, Column.cost, Nat.add_comm 1] using ih

/-- The target is at most one letter per edit longer than the source. -/
theorem length_target_le (c : Alignment α) :
    (target c).length ≤ (source c).length + cost c := by
  induction c with
  | nil => simp
  | cons x c ih => cases x <;> simp [Column.target, Column.source, Column.cost] <;> omega

/-- The source is at most one letter per edit longer than the target. -/
theorem length_source_le (c : Alignment α) :
    (source c).length ≤ (target c).length + cost c := by
  induction c with
  | nil => simp
  | cons x c ih => cases x <;> simp [Column.target, Column.source, Column.cost] <;> omega

/-! ## From alignments to scripts -/

/-- An alignment is executed column by column; the columns already executed have
left their target letters in front of the rest of the source. -/
theorem exists_script_append (c : Alignment α) (p : List α) :
    ∃ s : List (Edit α), s.length = cost c ∧
      runScript s (p ++ source c) = some (p ++ target c) := by
  induction c generalizing p with
  | nil => exact ⟨[], by simp⟩
  | cons x c ih =>
    cases x with
    | keep a =>
      obtain ⟨s, hs, hrun⟩ := ih (p ++ [a])
      exact ⟨s, by simpa [Column.cost] using hs,
        by simpa [Column.source, Column.target] using hrun⟩
    | replace a b =>
      obtain ⟨s, hs, hrun⟩ := ih (p ++ [a])
      refine ⟨.replace p.length a :: s, by simp [Column.cost, hs, Nat.add_comm], ?_⟩
      simpa [Column.source, Column.target, apply_replace_append] using hrun
    | insert a =>
      obtain ⟨s, hs, hrun⟩ := ih (p ++ [a])
      refine ⟨.insert p.length a :: s, by simp [Column.cost, hs, Nat.add_comm], ?_⟩
      simpa [Column.source, Column.target, apply_insert_append] using hrun
    | remove b =>
      obtain ⟨s, hs, hrun⟩ := ih p
      refine ⟨.remove p.length :: s, by simp [Column.cost, hs, Nat.add_comm], ?_⟩
      simpa [Column.source, Column.target, apply_remove_append] using hrun

/-- Every alignment is a script of the same cost. -/
theorem exists_script (c : Alignment α) :
    ∃ s : List (Edit α), s.length = cost c ∧ runScript s (source c) = some (target c) := by
  simpa using exists_script_append c []

/-! ## From scripts to alignments -/

/-- An alignment splits wherever its source does. -/
theorem split_source {c : Alignment α} {l r : List α} (h : source c = l ++ r) :
    ∃ c₁ c₂, c = c₁ ++ c₂ ∧ source c₁ = l ∧ source c₂ = r := by
  induction c generalizing l with
  | nil =>
    obtain ⟨rfl, rfl⟩ : l = [] ∧ r = [] := by simpa using h
    exact ⟨[], [], rfl, rfl, rfl⟩
  | cons x c ih =>
    rw [source_cons, List.append_eq_append_iff] at h
    rcases h with ⟨l', rfl, hc⟩ | ⟨r', hx, rfl⟩
    · obtain ⟨c₁, c₂, rfl, h₁, h₂⟩ := ih hc
      exact ⟨x :: c₁, c₂, rfl, by simp [h₁], h₂⟩
    · -- the column straddles the border: it has at most one source letter
      cases l with
      | nil => exact ⟨[], x :: c, rfl, rfl, by simpa using hx⟩
      | cons y l =>
        have hlen : x.source.length ≤ 1 := by cases x <;> simp [Column.source]
        rw [hx] at hlen
        obtain ⟨rfl, rfl⟩ : l = [] ∧ r' = [] := by simpa using hlen
        exact ⟨[x], c, rfl, by simpa using hx, by simp⟩

/-- The column that takes the first source letter, behind insertions only. -/
theorem split_source_head {c : Alignment α} {r : List α} {b : α} (h : source c = b :: r) :
    ∃ c₁ x c₂, c = c₁ ++ x :: c₂ ∧ source c₁ = [] ∧ x.source = [b] ∧ source c₂ = r := by
  induction c with
  | nil => simp at h
  | cons x c ih =>
    cases hx : x.source with
    | nil =>
      obtain ⟨c₁, y, c₂, rfl, h₁, hy, h₂⟩ := ih (by simpa [hx] using h)
      exact ⟨x :: c₁, y, c₂, rfl, by simp [hx, h₁], hy, h₂⟩
    | cons b' t =>
      have ht : t = [] := by cases x <;> simp_all [Column.source]
      subst ht
      obtain ⟨rfl, hr⟩ : b' = b ∧ source c = r := by simpa [hx] using h
      exact ⟨[], x, c, rfl, rfl, hx, hr⟩

/-- The column that takes a given source letter. -/
theorem split_source_letter {c : Alignment α} {l r : List α} {b : α}
    (h : source c = l ++ b :: r) :
    ∃ c₁ x c₂, c = c₁ ++ x :: c₂ ∧ source c₁ = l ∧ x.source = [b] ∧ source c₂ = r := by
  obtain ⟨c₁, d, rfl, h₁, hd⟩ := split_source h
  obtain ⟨d₁, x, d₂, rfl, hd₁, hx, hr⟩ := split_source_head hd
  exact ⟨c₁ ++ d₁, x, d₂, by simp, by simp [h₁, hd₁], hx, hr⟩

/-- A column loses its source letter for at most one more edit. -/
theorem exists_without_source {x : Column α} {b : α} (h : x.source = [b]) :
    ∃ d : Alignment α, source d = [] ∧ target d = x.target ∧ cost d ≤ x.cost + 1 := by
  cases x with
  | keep a => exact ⟨[.insert a], by simp [Column.source, Column.target, Column.cost]⟩
  | replace a b' => exact ⟨[.insert a], by simp [Column.source, Column.target, Column.cost]⟩
  | insert a => simp [Column.source] at h
  | remove b' => exact ⟨[], by simp [Column.target]⟩

/-- A column changes its source letter for at most one more edit. -/
theorem exists_with_source {x : Column α} {b : α} (h : x.source = [b]) (b' : α) :
    ∃ d : Alignment α, source d = [b'] ∧ target d = x.target ∧ cost d ≤ x.cost + 1 := by
  cases x with
  | keep a => exact ⟨[.replace a b'], by simp [Column.source, Column.target, Column.cost]⟩
  | replace a _ => exact ⟨[.replace a b'], by simp [Column.source, Column.target, Column.cost]⟩
  | insert a => simp [Column.source] at h
  | remove _ => exact ⟨[.remove b'], by simp [Column.source, Column.target, Column.cost]⟩

/-- An edit executed before an alignment is absorbed for one more edit. -/
theorem exists_absorb {e : Edit α} {w : List α} {c : Alignment α}
    (h : e.apply w = some (source c)) :
    ∃ d : Alignment α, source d = w ∧ target d = target c ∧ cost d ≤ cost c + 1 := by
  rcases split_of_apply h with ⟨l, r, a, rfl, hc⟩ | ⟨l, r, b, rfl, hc⟩ | ⟨l, r, a, b, rfl, hc⟩
  · -- the inserted letter is taken out of its column
    obtain ⟨c₁, x, c₂, rfl, h₁, hx, h₂⟩ := split_source_letter hc
    obtain ⟨d, hs, ht, hd⟩ := exists_without_source hx
    refine ⟨c₁ ++ d ++ c₂, by simp [h₁, hs, h₂], by simp [ht], ?_⟩
    simp only [cost_append, cost_cons]
    omega
  · -- the removed letter gets a column of its own
    obtain ⟨c₁, c₂, rfl, h₁, h₂⟩ := split_source hc
    refine ⟨c₁ ++ .remove b :: c₂, by simp [h₁, h₂, Column.source],
      by simp [Column.target], ?_⟩
    simp only [cost_append, cost_cons, Column.cost]
    omega
  · -- the replaced letter changes inside its column
    obtain ⟨c₁, x, c₂, rfl, h₁, hx, h₂⟩ := split_source_letter hc
    obtain ⟨d, hs, ht, hd⟩ := exists_with_source hx b
    refine ⟨c₁ ++ d ++ c₂, by simp [h₁, hs, h₂], by simp [ht], ?_⟩
    simp only [cost_append, cost_cons]
    omega

/-- **Every script is matched by an alignment that costs no more.** -/
theorem exists_alignment_of_runScript {s : List (Edit α)} {w w' : List α}
    (h : runScript s w = some w') :
    ∃ c : Alignment α, source c = w ∧ target c = w' ∧ cost c ≤ s.length := by
  induction s generalizing w with
  | nil =>
    obtain rfl : w = w' := by simpa using h
    exact ⟨keeps w, by simp⟩
  | cons e s ih =>
    rw [runScript_cons, Option.bind_eq_some_iff] at h
    obtain ⟨v, hv, hrun⟩ := h
    obtain ⟨c, rfl, ht, hcost⟩ := ih hrun
    obtain ⟨d, hs, ht', hd⟩ := exists_absorb hv
    exact ⟨d, hs, ht'.trans ht, by simp only [List.length_cons]; omega⟩

/-- Two words have an alignment no longer than the longer of them. -/
theorem exists_cost_le_max (target' source' : List α) :
    ∃ c : Alignment α, target c = target' ∧ source c = source' ∧
      cost c ≤ max target'.length source'.length := by
  induction target' generalizing source' with
  | nil => exact ⟨removes source', by simp⟩
  | cons a xs ih =>
    cases source' with
    | nil => exact ⟨inserts (a :: xs), by simp⟩
    | cons b ys =>
      obtain ⟨c, ht, hs, hc⟩ := ih ys
      refine ⟨.replace a b :: c, by simp [Column.target, ht], by simp [Column.source, hs], ?_⟩
      simp only [cost_cons, Column.cost, List.length_cons]
      omega

end Alignment

/-! ## The edit distance -/

open AudioCrash.EditScript.Alignment

theorem scriptLengths_nonempty (target source : List α) :
    (scriptLengths target source).Nonempty := by
  obtain ⟨c, rfl, rfl, -⟩ := exists_cost_le_max target source
  obtain ⟨s, -, hrun⟩ := exists_script c
  exact ⟨s.length, s, rfl, hrun⟩

/-- The edit distance is attained, and no script is shorter. -/
theorem isLeast_editDistance (target source : List α) :
    IsLeast (scriptLengths target source) (editDistance target source) :=
  ⟨Nat.sInf_mem (scriptLengths_nonempty target source), fun _ hk => Nat.sInf_le hk⟩

theorem editDistance_le_cost (c : Alignment α) :
    editDistance (target c) (source c) ≤ cost c := by
  obtain ⟨s, hs, hrun⟩ := exists_script c
  exact (isLeast_editDistance _ _).2 ⟨s, hs, hrun⟩

/-- Some alignment costs exactly the edit distance. -/
theorem exists_cost_eq_editDistance (xs ys : List α) :
    ∃ c : Alignment α, target c = xs ∧ source c = ys ∧ cost c = editDistance xs ys := by
  obtain ⟨s, hs, hrun⟩ := (isLeast_editDistance xs ys).1
  obtain ⟨c, rfl, rfl, hc⟩ := exists_alignment_of_runScript hrun
  exact ⟨c, rfl, rfl, le_antisymm (hc.trans hs.le) (editDistance_le_cost c)⟩

theorem editDistance_le_max (xs ys : List α) :
    editDistance xs ys ≤ max xs.length ys.length := by
  obtain ⟨c, rfl, rfl, hc⟩ := exists_cost_le_max xs ys
  exact (editDistance_le_cost c).trans hc

@[simp] theorem editDistance_nil_left (ys : List α) : editDistance [] ys = ys.length := by
  obtain ⟨c, ht, rfl, hc⟩ := exists_cost_eq_editDistance [] ys
  have hlow := length_source_le c
  have hhigh := editDistance_le_max [] (source c)
  simp only [ht, List.length_nil] at hlow hhigh
  omega

@[simp] theorem editDistance_nil_right (xs : List α) : editDistance xs [] = xs.length := by
  obtain ⟨c, rfl, hs, hc⟩ := exists_cost_eq_editDistance xs []
  have hlow := length_target_le c
  have hhigh := editDistance_le_max (target c) []
  simp only [hs, List.length_nil] at hlow hhigh
  omega

/-- A column more adds its own cost at most. -/
theorem editDistance_column_le (xs ys : List α) (x : Column α) :
    editDistance (xs ++ x.target) (ys ++ x.source) ≤ editDistance xs ys + x.cost := by
  obtain ⟨c, rfl, rfl, hc⟩ := exists_cost_eq_editDistance xs ys
  have h := editDistance_le_cost (c ++ [x])
  rw [target_append, source_append, cost_append, hc] at h
  simpa using h

/-- A letter more in the target is one edit more at most. -/
theorem editDistance_insert_le (xs ys : List α) (a : α) :
    editDistance (xs ++ [a]) ys ≤ editDistance xs ys + 1 := by
  have h := editDistance_column_le xs ys (.insert a)
  simpa [Column.target, Column.source, Column.cost] using h

/-- A letter more in the source is one edit more at most. -/
theorem editDistance_remove_le (xs ys : List α) (b : α) :
    editDistance xs (ys ++ [b]) ≤ editDistance xs ys + 1 := by
  have h := editDistance_column_le xs ys (.remove b)
  simpa [Column.target, Column.source, Column.cost] using h

/-- The cost of standing `a` in place of `b`. -/
def matchCost [DecidableEq α] (a b : α) : ℕ := if a = b then 0 else 1

theorem editDistance_match_le [DecidableEq α] (xs ys : List α) (a b : α) :
    editDistance (xs ++ [a]) (ys ++ [b]) ≤ editDistance xs ys + matchCost a b := by
  by_cases hab : a = b
  · subst hab
    have h := editDistance_column_le xs ys (.keep a)
    simpa [Column.target, Column.source, Column.cost, matchCost] using h
  · have h := editDistance_column_le xs ys (.replace a b)
    simpa [Column.target, Column.source, Column.cost, matchCost, hab] using h

/-- The last column of a least alignment is one of the three moves. -/
theorem editDistance_concat_ge [DecidableEq α] (xs ys : List α) (a b : α) :
    editDistance xs (ys ++ [b]) + 1 ≤ editDistance (xs ++ [a]) (ys ++ [b]) ∨
      editDistance (xs ++ [a]) ys + 1 ≤ editDistance (xs ++ [a]) (ys ++ [b]) ∨
      editDistance xs ys + matchCost a b ≤ editDistance (xs ++ [a]) (ys ++ [b]) := by
  obtain ⟨c, ht, hs, hc⟩ := exists_cost_eq_editDistance (xs ++ [a]) (ys ++ [b])
  rw [← hc]
  rcases List.eq_nil_or_concat c with rfl | ⟨c, x, rfl⟩
  · simp at ht
  cases x with
  | keep z =>
    obtain ⟨rfl, rfl⟩ : target c = xs ∧ z = a := by simpa [Column.target] using ht
    obtain ⟨rfl, rfl⟩ : source c = ys ∧ z = b := by simpa [Column.source] using hs
    exact Or.inr (Or.inr (by simpa [matchCost, Column.cost] using editDistance_le_cost c))
  | replace z z' =>
    obtain ⟨rfl, rfl⟩ : target c = xs ∧ z = a := by simpa [Column.target] using ht
    obtain ⟨rfl, rfl⟩ : source c = ys ∧ z' = b := by simpa [Column.source] using hs
    have hle := editDistance_le_cost c
    have hmatch : matchCost z z' ≤ 1 := by unfold matchCost; split <;> omega
    refine Or.inr (Or.inr ?_)
    simp only [List.concat_eq_append, cost_append, cost_cons, cost_nil, Column.cost]
    omega
  | insert z =>
    obtain ⟨rfl, rfl⟩ : target c = xs ∧ z = a := by simpa [Column.target] using ht
    obtain hs' : source c = ys ++ [b] := by simpa [Column.source] using hs
    exact Or.inl (by simpa [Column.cost, hs'] using editDistance_le_cost c)
  | remove z =>
    obtain ht' : target c = xs ++ [a] := by simpa [Column.target] using ht
    obtain ⟨rfl, rfl⟩ : source c = ys ∧ z = b := by simpa [Column.source] using hs
    exact Or.inr (Or.inl (by simpa [Column.cost, ht'] using editDistance_le_cost c))

/-- **The recurrence of the edit distance**, on the last letters of the words. -/
theorem editDistance_concat [DecidableEq α] (xs ys : List α) (a b : α) :
    editDistance (xs ++ [a]) (ys ++ [b]) =
      min (editDistance xs (ys ++ [b]) + 1)
        (min (editDistance (xs ++ [a]) ys + 1) (editDistance xs ys + matchCost a b)) := by
  have hinsert := editDistance_insert_le xs (ys ++ [b]) a
  have hremove := editDistance_remove_le (xs ++ [a]) ys b
  have hmatch := editDistance_match_le xs ys a b
  have hge := editDistance_concat_ge xs ys a b
  omega

end AudioCrash.EditScript
