import AudioCrash.Lib.EditScript
import AudioCrash.Lib.Loop
import Mathlib.Data.Int.Notation
import Mathlib.Data.List.GetD

/-!
# The two tables of `edit_pass`

`edit_pass.cc` fills two tables side by side: `dis_map`, the number of edits
between two prefixes, and `pass`, the edits themselves as triples of ints. Both are
modelled cell by cell, and the loops of the source are `forLoop`s over a state that
holds the two tables. Indices and distances are exact numbers: a run whose `int`
counters come near their limit would have to hold more triples than a 64-bit
machine can address.

`CellOk` says what a finished cell holds. It is established on the two borders and
then kept by the interior, one cell after the other (`cell_spec`, `cellOk_fill`). The loops
are gone through once for all such properties (`CellRules`).

## Main definitions

* `Triple`, `Tables`, `cell`, `fill`, `editPass` — the source.
* `theEditPass` — the exported function, writing into the caller's buffer.
* `Spells` — the triples of a cell read as a walk through the two words.
* `CellOk` — the invariant of a finished cell.
* `CellRules`, `CellRules.fill` — from the steps of the loops to every cell.
-/

namespace AudioCrash.EditPass

open EditScript

/-- `std::tuple<int, int, int>`, its fields named as `main` reads them. The kind of
the edit is the sign of `left`: `-2` inserts `word1[right]`, `-1` removes
`word2[right]`, and any index replaces `word2[right]` by `word1[left]`. -/
structure Triple where
  left : ℤ
  right : ℤ
  pos : ℤ
  deriving DecidableEq, Repr

/-- A two-dimensional vector, cell by cell. -/
abbrev Table (β : Type) := ℕ → ℕ → β

/-- `t[i][j] = v`. -/
def Table.set {β : Type} (t : Table β) (i j : ℕ) (v : β) : Table β :=
  fun i' j' => if i' = i ∧ j' = j then v else t i' j'

@[simp] theorem Table.set_self {β : Type} (t : Table β) (i j : ℕ) (v : β) :
    t.set i j v i j = v := by simp [Table.set]

theorem Table.set_of_ne {β : Type} (t : Table β) {i j i' j' : ℕ} (v : β)
    (h : ¬(i' = i ∧ j' = j)) : t.set i j v i' j' = t i' j' := by
  simp only [Table.set, if_neg h]

/-- The state of `edit_pass`. -/
structure Tables where
  disMap : Table ℕ
  pass : Table (List Triple)

/-- Both tables as they are constructed, with `[0][0]` assigned. -/
def Tables.init : Tables where
  disMap := Table.set (fun _ _ => 0) 0 0 0
  pass := Table.set (fun _ _ => []) 0 0 []

/-- One step of the loop over the first row. -/
def borderRow (i : ℕ) (t : Tables) : Tables where
  disMap := t.disMap.set 0 i i
  pass := t.pass.set 0 i (t.pass 0 (i - 1) ++ [⟨-1, (i : ℤ) - 1, 0⟩])

/-- One step of the loop over the first column. -/
def borderCol (j : ℕ) (t : Tables) : Tables where
  disMap := t.disMap.set j 0 j
  pass := t.pass.set j 0 (t.pass (j - 1) 0 ++ [⟨-2, (j : ℤ) - 1, (j : ℤ) - 1⟩])

/-- The body of the two nested loops. -/
def cell (word1 word2 : List ℤ) (i j : ℕ) (t : Tables) : Tables :=
  let dis1 := t.disMap (i - 1) j + 1
  let dis2 := t.disMap i (j - 1) + 1
  let dis3 := if word1.getD (i - 1) 0 = word2.getD (j - 1) 0
    then t.disMap (i - 1) (j - 1) else t.disMap (i - 1) (j - 1) + 1
  let disMap := t.disMap.set i j (min dis1 (min dis2 dis3))
  if dis1 = disMap i j then
    ⟨disMap, t.pass.set i j (t.pass (i - 1) j ++ [⟨-2, (i : ℤ) - 1, (j : ℤ) - 1⟩])⟩
  else if dis2 = disMap i j then
    ⟨disMap, t.pass.set i j (t.pass i (j - 1) ++ [⟨-1, (j : ℤ) - 1, (j : ℤ) - 1⟩])⟩
  else if dis3 = disMap i j then
    if word1.getD (i - 1) 0 ≠ word2.getD (j - 1) 0 then
      ⟨disMap, t.pass.set i j
        (t.pass (i - 1) (j - 1) ++ [⟨(i : ℤ) - 1, (j : ℤ) - 1, (j : ℤ) - 1⟩])⟩
    else ⟨disMap, t.pass.set i j (t.pass (i - 1) (j - 1))⟩
  else ⟨disMap, t.pass⟩

/-- The tables when the loops are done. -/
def fill (word1 word2 : List ℤ) : Tables :=
  let t := forLoop 1 (word2.length + 1) borderRow Tables.init
  let t := forLoop 1 (word1.length + 1) borderCol t
  forLoop 1 (word1.length + 1)
    (fun i t => forLoop 1 (word2.length + 1) (cell word1 word2 i) t) t

/-- `edit_pass`: the triples in the last cell. -/
def editPass (word1 word2 : List ℤ) : List Triple :=
  (fill word1 word2).pass word1.length word2.length

/-! ## The exported function -/

/-- `edit_pass_result[size] = v`; `none` when the caller's buffer has no such cell. -/
def store (buf : List ℤ) (size : ℕ) (v : ℤ) : Option (List ℤ) :=
  if size < buf.length then some (buf.set size v) else none

/-- The loop that copies the triples into the caller's buffer. -/
def storeTriples : List Triple → List ℤ → ℕ → Option (List ℤ × ℕ)
  | [], buf, size => some (buf, size)
  | t :: ts, buf, size => do
    let buf ← store buf size t.left
    let buf ← store buf (size + 1) t.right
    let buf ← store buf (size + 2) t.pos
    storeTriples ts buf (size + 3)

/-- `the_edit_pass`: the buffer as it is left, and the returned size. -/
def theEditPass (reference hypothesis editPassResult : List ℤ) : Option (List ℤ × ℕ) :=
  storeTriples (editPass reference hypothesis) editPassResult 0

/-- The ints of a list of triples, in the order they are stored. -/
def flat (ts : List Triple) : List ℤ := ts.flatMap fun t => [t.left, t.right, t.pos]

@[simp] theorem flat_nil : flat [] = [] := rfl
@[simp] theorem flat_cons (t : Triple) (ts : List Triple) :
    flat (t :: ts) = t.left :: t.right :: t.pos :: flat ts := rfl
@[simp] theorem length_flat (ts : List Triple) : (flat ts).length = 3 * ts.length := by
  induction ts with
  | nil => rfl
  | cons t ts ih => simp [ih]; omega

/-- A store in the cell behind a written prefix. -/
theorem store_append (done : List ℤ) (x v : ℤ) (rest : List ℤ) :
    store (done ++ x :: rest) done.length v = some (done ++ v :: rest) := by
  simp [store]

/-- Storing fills the buffer from the left and touches nothing behind. -/
theorem storeTriples_append (ts : List Triple) (done old rest : List ℤ)
    (h : old.length = 3 * ts.length) :
    storeTriples ts (done ++ old ++ rest) done.length =
      some (done ++ flat ts ++ rest, done.length + 3 * ts.length) := by
  induction ts generalizing done old with
  | nil =>
    obtain rfl : old = [] := by simpa using h
    simp [storeTriples]
  | cons t ts ih =>
    match old, h with
    | x :: y :: z :: old, h =>
      have h1 := store_append done x t.left (y :: z :: old ++ rest)
      have h2 := store_append (done ++ [t.left]) y t.right (z :: old ++ rest)
      have h3 := store_append (done ++ [t.left, t.right]) z t.pos (old ++ rest)
      have hrest := ih (done ++ [t.left, t.right, t.pos]) old (by simp at h; omega)
      simp only [List.append_assoc, List.cons_append, List.nil_append, List.length_append,
        List.length_cons, List.length_nil, Nat.zero_add] at h1 h2 h3 hrest
      simp only [storeTriples, List.append_assoc, List.cons_append, h1, h2, h3, hrest,
        Option.bind_eq_bind, Option.bind_some, flat_cons, List.length_cons]
      simp only [Nat.mul_add, Nat.mul_one]
      congr 2
      omega

/-- With room for the triples, `theEditPass` writes them and nothing else. -/
theorem theEditPass_eq {word1 word2 buf : List ℤ}
    (h : 3 * (editPass word1 word2).length ≤ buf.length) :
    theEditPass word1 word2 buf =
      some (flat (editPass word1 word2) ++ buf.drop (3 * (editPass word1 word2).length),
        3 * (editPass word1 word2).length) := by
  have hsplit := List.take_append_drop (3 * (editPass word1 word2).length) buf
  have hstore := storeTriples_append (editPass word1 word2) []
    (buf.take (3 * (editPass word1 word2).length))
    (buf.drop (3 * (editPass word1 word2).length)) (by simpa using h)
  rw [List.nil_append, hsplit] at hstore
  simpa [theEditPass] using hstore

/-! ## The triples as a walk through the two words -/

/-- `Spells word1 word2 ts i j`: the triples `ts` lead from the start of both words to
index `i` of `word1` and index `j` of `word2`. Equal letters are passed in silence. -/
inductive Spells (word1 word2 : List ℤ) : List Triple → ℕ → ℕ → Prop
  | start : Spells word1 word2 [] 0 0
  | keep {ts i j} (h : Spells word1 word2 ts i j) (hi : i < word1.length)
      (hj : j < word2.length) (heq : word1[i] = word2[j]) : Spells word1 word2 ts (i + 1) (j + 1)
  | insert {ts i j} (p : ℤ) (h : Spells word1 word2 ts i j) (hi : i < word1.length) :
      Spells word1 word2 (ts ++ [⟨-2, i, p⟩]) (i + 1) j
  | remove {ts i j} (p : ℤ) (h : Spells word1 word2 ts i j) (hj : j < word2.length) :
      Spells word1 word2 (ts ++ [⟨-1, j, p⟩]) i (j + 1)
  | replace {ts i j} (p : ℤ) (h : Spells word1 word2 ts i j) (hi : i < word1.length)
      (hj : j < word2.length) : Spells word1 word2 (ts ++ [⟨i, j, p⟩]) (i + 1) (j + 1)

/-! ## The invariant of a finished cell -/

/-- What a finished cell holds: the distance of the two prefixes, that many triples,
and triples that lead to the cell. -/
structure CellOk (word1 word2 : List ℤ) (t : Tables) (i j : ℕ) : Prop where
  dis : t.disMap i j = editDistance (word1.take i) (word2.take j)
  size : (t.pass i j).length = t.disMap i j
  spells : Spells word1 word2 (t.pass i j) i j

variable {word1 word2 : List ℤ} {t : Tables} {i j : ℕ}

/-- A cell is judged by its two entries alone. -/
theorem CellOk.congr {t' : Tables} (h : CellOk word1 word2 t i j)
    (hdis : t'.disMap i j = t.disMap i j) (hpass : t'.pass i j = t.pass i j) :
    CellOk word1 word2 t' i j :=
  ⟨hdis.trans h.dis, by rw [hpass, hdis, h.size], hpass ▸ h.spells⟩

/-- A cell that has just been written. -/
theorem cellOk_set {d : ℕ} {ts : List Triple}
    (hd : d = editDistance (word1.take i) (word2.take j)) (hsize : ts.length = d)
    (hspells : Spells word1 word2 ts i j) :
    CellOk word1 word2 ⟨t.disMap.set i j d, t.pass.set i j ts⟩ i j :=
  ⟨by simpa using hd, by simpa using hsize, by simpa using hspells⟩

theorem cellOk_init : CellOk word1 word2 Tables.init 0 0 :=
  cellOk_set (t := ⟨fun _ _ => 0, fun _ _ => []⟩) (by simp) rfl Spells.start

theorem borderRow_spec (h : CellOk word1 word2 t 0 j) (hj : j < word2.length) :
    CellOk word1 word2 (borderRow (j + 1) t) 0 (j + 1) := by
  have hdis : t.disMap 0 j = j := by simpa [hj.le] using h.dis
  refine cellOk_set ?_ ?_ ?_
  · simp [Nat.succ_le_of_lt hj]
  · simp [h.size, hdis]
  · simpa using h.spells.remove 0 hj

theorem borderCol_spec (h : CellOk word1 word2 t i 0) (hi : i < word1.length) :
    CellOk word1 word2 (borderCol (i + 1) t) (i + 1) 0 := by
  have hdis : t.disMap i 0 = i := by simpa [hi.le] using h.dis
  refine cellOk_set ?_ ?_ ?_
  · simp [Nat.succ_le_of_lt hi]
  · simp [h.size, hdis]
  · simpa using h.spells.insert (i : ℤ) hi

/-- The distance of two longer prefixes, from those of the three neighbours. -/
theorem editDistance_take_succ (hi : i < word1.length) (hj : j < word2.length) :
    editDistance (word1.take (i + 1)) (word2.take (j + 1)) =
      min (editDistance (word1.take i) (word2.take (j + 1)) + 1)
        (min (editDistance (word1.take (i + 1)) (word2.take j) + 1)
          (editDistance (word1.take i) (word2.take j) + matchCost word1[i] word2[j])) := by
  have h1 : word1.take (i + 1) = word1.take i ++ [word1[i]] := by simp
  have h2 : word2.take (j + 1) = word2.take j ++ [word2[j]] := by simp
  rw [h1, h2]
  exact editDistance_concat _ _ _ _

/-- What the interior writes, by the distances of the prefixes. -/
theorem cell_eq (h1 : CellOk word1 word2 t i (j + 1)) (h2 : CellOk word1 word2 t (i + 1) j)
    (h3 : CellOk word1 word2 t i j) (hi : i < word1.length) (hj : j < word2.length) :
    cell word1 word2 (i + 1) (j + 1) t =
      ⟨t.disMap.set (i + 1) (j + 1) (editDistance (word1.take (i + 1)) (word2.take (j + 1))),
        t.pass.set (i + 1) (j + 1)
          (if editDistance (word1.take (i + 1)) (word2.take (j + 1)) =
              editDistance (word1.take i) (word2.take (j + 1)) + 1 then
            t.pass i (j + 1) ++ [⟨-2, i, j⟩]
          else if editDistance (word1.take (i + 1)) (word2.take (j + 1)) =
              editDistance (word1.take (i + 1)) (word2.take j) + 1 then
            t.pass (i + 1) j ++ [⟨-1, j, j⟩]
          else if word1[i] = word2[j] then t.pass i j
          else t.pass i j ++ [⟨i, j, j⟩])⟩ := by
  have hrec := editDistance_take_succ hi hj
  rw [← h1.dis, ← h2.dis, ← h3.dis] at hrec
  have hw1 : word1.getD i 0 = word1[i] := List.getD_eq_getElem _ _ hi
  have hw2 : word2.getD j 0 = word2[j] := List.getD_eq_getElem _ _ hj
  have hcast : ∀ k : ℕ, ((k + 1 : ℕ) : ℤ) - 1 = k := by intro k; omega
  rw [← h1.dis, ← h2.dis]
  by_cases heq : word1[i] = word2[j]
  · simp only [matchCost, heq, if_true, Nat.add_zero] at hrec
    simp only [hrec, cell, Nat.add_sub_cancel, hw1, hw2, heq, if_true, Table.set_self, ne_eq,
      not_true_eq_false, if_false, hcast, eq_comm (b := min _ _)]
    split_ifs with c1 c2 c3
    · rfl
    · rfl
    · rfl
    · omega
  · simp only [matchCost, heq, if_false] at hrec
    simp only [hrec, cell, Nat.add_sub_cancel, hw1, hw2, heq, if_false, Table.set_self, ne_eq,
      not_false_eq_true, if_true, hcast, eq_comm (b := min _ _)]
    split_ifs with c1 c2 c3
    · rfl
    · rfl
    · rfl
    · omega

/-- **The interior keeps the invariant**: a cell is right once its three neighbours are. -/
theorem cell_spec (h1 : CellOk word1 word2 t i (j + 1)) (h2 : CellOk word1 word2 t (i + 1) j)
    (h3 : CellOk word1 word2 t i j) (hi : i < word1.length) (hj : j < word2.length) :
    CellOk word1 word2 (cell word1 word2 (i + 1) (j + 1) t) (i + 1) (j + 1) := by
  have hrec := editDistance_take_succ hi hj
  have hs1 := h1.size.trans h1.dis
  have hs2 := h2.size.trans h2.dis
  have hs3 := h3.size.trans h3.dis
  rw [cell_eq h1 h2 h3 hi hj]
  split_ifs with hinsert hremove heq
  · exact cellOk_set rfl (by simp [hs1, hinsert]) (h1.spells.insert j hi)
  · exact cellOk_set rfl (by simp [hs2, hremove]) (h2.spells.remove j hj)
  · rw [matchCost, if_pos heq] at hrec
    exact cellOk_set rfl (by omega) (h3.spells.keep hi hj heq)
  · rw [matchCost, if_neg heq] at hrec
    refine cellOk_set rfl ?_ (h3.spells.replace j hi hj)
    rw [List.length_append, List.length_singleton]
    omega

/-! ## The loops -/

/-- What the loops keep of a finished cell: a property of its two entries that is established
on the borders, and in the interior from the three neighbours. -/
structure CellRules (word1 word2 : List ℤ) (P : Tables → ℕ → ℕ → Prop) : Prop where
  congr : ∀ {t t' : Tables} {i j : ℕ}, P t i j → t'.disMap i j = t.disMap i j →
    t'.pass i j = t.pass i j → P t' i j
  init : P Tables.init 0 0
  row : ∀ {t : Tables} {j : ℕ}, P t 0 j → j < word2.length → P (borderRow (j + 1) t) 0 (j + 1)
  col : ∀ {t : Tables} {i : ℕ}, P t i 0 → i < word1.length → P (borderCol (i + 1) t) (i + 1) 0
  cell : ∀ {t : Tables} {i j : ℕ}, P t i (j + 1) → P t (i + 1) j → P t i j → i < word1.length →
    j < word2.length → P (cell word1 word2 (i + 1) (j + 1) t) (i + 1) (j + 1)

/-- The cells that are finished before row `i` of the interior: the first column and
the rows above. -/
def RowsOk (word1 word2 : List ℤ) (P : Tables → ℕ → ℕ → Prop) (t : Tables) (i : ℕ) : Prop :=
  ∀ i' j', i' ≤ word1.length → j' ≤ word2.length → (i' < i ∨ j' = 0) → P t i' j'

namespace CellRules
variable {P : Tables → ℕ → ℕ → Prop} (h : CellRules word1 word2 P) {i' j' : ℕ}
include h

theorem borderRow_frame (hP : P t i' j') (hne : ¬(i' = 0 ∧ j' = j)) :
    P (borderRow j t) i' j' :=
  h.congr hP (Table.set_of_ne _ _ hne) (Table.set_of_ne _ _ hne)

theorem borderCol_frame (hP : P t i' j') (hne : ¬(i' = i ∧ j' = 0)) :
    P (borderCol i t) i' j' :=
  h.congr hP (Table.set_of_ne _ _ hne) (Table.set_of_ne _ _ hne)

/-- The interior writes its own cell only. -/
theorem cell_frame (hP : P t i' j') (hne : ¬(i' = i ∧ j' = j)) :
    P (EditPass.cell word1 word2 i j t) i' j' := by
  refine h.congr hP ?_ ?_
  · unfold EditPass.cell
    dsimp only
    split_ifs <;> exact Table.set_of_ne _ _ hne
  · unfold EditPass.cell
    dsimp only
    split_ifs <;> first | exact Table.set_of_ne _ _ hne | rfl

/-- The first row, filled from the left. -/
theorem borderRow_loop :
    ∀ j < word2.length + 1, P (forLoop 1 (word2.length + 1) borderRow Tables.init) 0 j := by
  refine forLoop_induction (by omega) borderRow Tables.init
    (fun k t => ∀ j < k, P t 0 j) ?_ ?_
  · intro j hj
    obtain rfl : j = 0 := by omega
    exact h.init
  · intro k t hk hkm hrow j hj
    obtain ⟨k, rfl⟩ : ∃ l, k = l + 1 := ⟨k - 1, by omega⟩
    by_cases hjk : j = k + 1
    · subst hjk
      exact h.row (hrow k (by omega)) (by omega)
    · exact h.borderRow_frame (hrow j (by omega)) (by omega)

/-- The two borders. -/
theorem rowsOk_borders :
    RowsOk word1 word2 P (forLoop 1 (word1.length + 1) borderCol
      (forLoop 1 (word2.length + 1) borderRow Tables.init)) 1 := by
  have key := forLoop_induction (show 1 ≤ word1.length + 1 by omega) borderCol
    (forLoop 1 (word2.length + 1) borderRow Tables.init)
    (fun k t => (∀ j < word2.length + 1, P t 0 j) ∧ ∀ i < k, P t i 0) ?init ?step
  · rintro i j hi hj (hi0 | rfl)
    · obtain rfl : i = 0 := by omega
      exact key.1 j (by omega)
    · exact key.2 i (by omega)
  case init =>
    refine ⟨h.borderRow_loop, fun i hi => ?_⟩
    obtain rfl : i = 0 := by omega
    exact h.borderRow_loop 0 (by omega)
  case step =>
    rintro k t hk hkn ⟨hrow, hcol⟩
    obtain ⟨k, rfl⟩ : ∃ l, k = l + 1 := ⟨k - 1, by omega⟩
    refine ⟨fun j hj => h.borderCol_frame (hrow j hj) (by omega), fun i hi => ?_⟩
    by_cases hik : i = k + 1
    · subst hik
      exact h.col (hcol k (by omega)) (by omega)
    · exact h.borderCol_frame (hcol i (by omega)) (by omega)

/-- One row of the interior. -/
theorem rowsOk_row (hrows : RowsOk word1 word2 P t (i + 1)) (hi : i < word1.length) :
    RowsOk word1 word2 P
      (forLoop 1 (word2.length + 1) (EditPass.cell word1 word2 (i + 1)) t) (i + 2) := by
  have key := forLoop_induction (show 1 ≤ word2.length + 1 by omega)
    (EditPass.cell word1 word2 (i + 1)) t
    (fun k t => RowsOk word1 word2 P t (i + 1) ∧ ∀ j < k, P t (i + 1) j) ?init ?step
  · rintro i' j' hi' hj' (hlt | rfl)
    · by_cases hlast : i' = i + 1
      · subst hlast
        exact key.2 j' (by omega)
      · exact key.1 i' j' hi' hj' (Or.inl (by omega))
    · exact key.1 i' 0 hi' (by omega) (Or.inr rfl)
  case init =>
    refine ⟨hrows, fun j hj => ?_⟩
    obtain rfl : j = 0 := by omega
    exact hrows (i + 1) 0 (by omega) (by omega) (Or.inr rfl)
  case step =>
    rintro k t hk hkm ⟨hrows, hrow⟩
    obtain ⟨k, rfl⟩ : ∃ l, k = l + 1 := ⟨k - 1, by omega⟩
    refine ⟨fun i' j' hi' hj' hdone => h.cell_frame (hrows i' j' hi' hj' hdone) (by omega),
      fun j hj => ?_⟩
    by_cases hjk : j = k + 1
    · subst hjk
      exact h.cell (hrows i (k + 1) (by omega) (by omega) (Or.inl (by omega)))
        (hrow k (by omega)) (hrows i k (by omega) (by omega) (Or.inl (by omega))) hi (by omega)
    · exact h.cell_frame (hrow j (by omega)) (by omega)

theorem rowsOk_fill : RowsOk word1 word2 P (fill word1 word2) (word1.length + 1) := by
  refine forLoop_induction (show 1 ≤ word1.length + 1 by omega)
    (fun i t => forLoop 1 (word2.length + 1) (EditPass.cell word1 word2 i) t)
    (forLoop 1 (word1.length + 1) borderCol
      (forLoop 1 (word2.length + 1) borderRow Tables.init))
    (fun k t => RowsOk word1 word2 P t k) h.rowsOk_borders ?step
  case step =>
    intro k t hk hkn hrows
    obtain ⟨k, rfl⟩ : ∃ l, k = l + 1 := ⟨k - 1, by omega⟩
    exact h.rowsOk_row hrows (by omega)

/-- **Every cell of the filled tables** has what the rules establish. -/
theorem fill (hi : i ≤ word1.length) (hj : j ≤ word2.length) :
    P (EditPass.fill word1 word2) i j :=
  h.rowsOk_fill i j hi hj (Or.inl (by omega))

end CellRules

theorem cellOk_rules : CellRules word1 word2 (CellOk word1 word2) where
  congr := CellOk.congr
  init := cellOk_init
  row := borderRow_spec
  col := borderCol_spec
  cell := cell_spec

theorem cellOk_fill (hi : i ≤ word1.length) (hj : j ≤ word2.length) :
    CellOk word1 word2 (fill word1 word2) i j :=
  cellOk_rules.fill hi hj

/-- The number of triples is the edit distance. -/
theorem length_editPass (word1 word2 : List ℤ) :
    (editPass word1 word2).length = editDistance word1 word2 := by
  have h := cellOk_fill (le_refl word1.length) (le_refl word2.length)
  rw [editPass, h.size, h.dis, List.take_length, List.take_length]

/-- The triples of the result lead to the ends of both words. -/
theorem spells_editPass (word1 word2 : List ℤ) :
    Spells word1 word2 (editPass word1 word2) word1.length word2.length :=
  (cellOk_fill (le_refl word1.length) (le_refl word2.length)).spells

/-- **`edit_pass` is optimal**: it returns as many triples as the shortest of all scripts
that turn `word2` into `word1` has edits, each cell does so for its two prefixes, and
`the_edit_pass` stays inside a buffer of `3 * max(n, m)` ints. -/
theorem editPass_least (word1 word2 : List ℤ) :
    IsLeast (scriptLengths word1 word2) (editPass word1 word2).length ∧
      (∀ i j, i ≤ word1.length → j ≤ word2.length →
        (fill word1 word2).disMap i j = ((fill word1 word2).pass i j).length ∧
        IsLeast (scriptLengths (word1.take i) (word2.take j)) ((fill word1 word2).disMap i j)) ∧
      ∀ buf : List ℤ, 3 * max word1.length word2.length ≤ buf.length →
        3 * editDistance word1 word2 ≤ 3 * max word1.length word2.length ∧
        ∃ written, written.length = 3 * editDistance word1 word2 ∧
          theEditPass word1 word2 buf =
            some (written ++ buf.drop written.length, 3 * editDistance word1 word2) := by
  have hlen := length_editPass word1 word2
  refine ⟨?_, ?_, ?_⟩
  · rw [hlen]
    exact isLeast_editDistance word1 word2
  · intro i j hi hj
    have h := cellOk_fill hi hj
    refine ⟨h.size.symm, ?_⟩
    rw [h.dis]
    exact isLeast_editDistance _ _
  · intro buf hbuf
    have hmax := editDistance_le_max word1 word2
    refine ⟨by omega, flat (editPass word1 word2), by rw [length_flat, hlen], ?_⟩
    rw [theEditPass_eq (by omega), length_flat, hlen]

/-- The words of `main`: three insertions into an empty hypothesis. -/
theorem editPass_least_main :
    3 * editDistance [1, 2, 3] ([] : List ℤ) ≤ 9 ∧
      ∃ written, written.length = 3 * editDistance [1, 2, 3] ([] : List ℤ) ∧
        theEditPass [1, 2, 3] [] (List.replicate 9 0) =
          some (written ++ (List.replicate 9 0).drop written.length,
            3 * editDistance [1, 2, 3] ([] : List ℤ)) :=
  (editPass_least [1, 2, 3] []).2.2 (List.replicate 9 0) (by decide)

end AudioCrash.EditPass
