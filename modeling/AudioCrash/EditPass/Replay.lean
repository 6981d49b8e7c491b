import AudioCrash.EditPass.Table
import Mathlib.Data.List.Pairwise

/-!
# Replaying an edit pass

`main` in `edit_pass.cc` reads the triples back: the sign of the first field tells an
insertion and a removal from a replacement. `replay` executes a list of triples on
`word2` with that reading. Equal letters leave no triple, so before each edit the
letters up to its position are copied.

The walk `Spells` of a cell runs ahead of the cursors by a silent diagonal of equal
letters (`Behind`), and each triple first catches up with it.

## Main definitions

* `decode` — the flat buffer in groups of three.
* `replayStep`, `replay` — the execution of the triples.
* `word1Indices`, `word2Indices` — the indices the triples name.
-/

namespace AudioCrash.EditPass

/-- The flat buffer, three ints at a time. -/
def decode : List ℤ → List Triple
  | left :: right :: pos :: rest => ⟨left, right, pos⟩ :: decode rest
  | _ => []

@[simp] theorem decode_flat (ts : List Triple) : decode (flat ts) = ts := by
  induction ts with
  | nil => rfl
  | cons t ts ih => simp [decode, ih]

/-- The cursors into the two words, and what has been emitted. -/
structure Cursor where
  i : ℕ
  j : ℕ
  out : List ℤ
  deriving DecidableEq, Repr

/-- Copy `n` letters of `word2`; `none` when `n` is negative or they are not there. -/
def copy (word2 : List ℤ) (n : ℤ) (c : Cursor) : Option Cursor :=
  if 0 ≤ n ∧ c.j + n.toNat ≤ word2.length then
    some ⟨c.i + n.toNat, c.j + n.toNat, c.out ++ (word2.drop c.j).take n.toNat⟩
  else none

/-- Emit `word1[a]`, leaving the cursors alone. -/
def emit (word1 : List ℤ) (a : ℤ) (c : Cursor) : Option Cursor :=
  if 0 ≤ a then (word1[a.toNat]?).map fun x => { c with out := c.out ++ [x] } else none

/-- Execute one triple; `none` when it names an index that is out of range or behind the
cursors. -/
def replayStep (word1 word2 : List ℤ) (c : Cursor) (t : Triple) : Option Cursor :=
  if t.left = -2 then do
    let c ← copy word2 (t.right - c.i) c
    let c ← emit word1 t.right c
    some { c with i := c.i + 1 }
  else if t.left = -1 then do
    let c ← copy word2 (t.right - c.j) c
    if c.j < word2.length then some { c with j := c.j + 1 } else none
  else if t.left - c.i = t.right - c.j then do
    let c ← copy word2 (t.left - c.i) c
    let c ← emit word1 t.left c
    if c.j < word2.length then some { c with i := c.i + 1, j := c.j + 1 } else none
  else none

/-- Execute the triples on `word2`, and copy what is left of it. -/
def replay (word1 word2 : List ℤ) (ts : List Triple) : Option (List ℤ) := do
  let c ← ts.foldlM (replayStep word1 word2) ⟨0, 0, []⟩
  some (c.out ++ word2.drop c.j)

/-- The indices of `word1` that the triples name. -/
def word1Indices (ts : List Triple) : List ℤ :=
  ts.filterMap fun t => if t.left = -2 then some t.right else if t.left = -1 then none
    else some t.left

/-- The indices of `word2` that the triples name. -/
def word2Indices (ts : List Triple) : List ℤ :=
  ts.filterMap fun t => if t.left = -2 then none else some t.right

theorem foldlM_replayStep_concat (word1 word2 : List ℤ) (c : Cursor) (ts : List Triple)
    (t : Triple) : (ts ++ [t]).foldlM (replayStep word1 word2) c =
      (ts.foldlM (replayStep word1 word2) c).bind fun c => replayStep word1 word2 c t := by
  simp [List.foldlM_append]

/-! ## The cursors behind the walk -/

/-- The cursors are behind the walk at `(i, j)` by a diagonal of equal letters. -/
structure Behind (word1 word2 : List ℤ) (c : Cursor) (i j : ℕ) : Prop where
  i_le : i ≤ word1.length
  j_le : j ≤ word2.length
  ci_le : c.i ≤ i
  diagonal : c.i + j = i + c.j
  out : c.out = word1.take c.i
  equal : (word1.take i).drop c.i = (word2.take j).drop c.j

variable {word1 word2 : List ℤ} {c : Cursor} {ts : List Triple} {i j : ℕ}

theorem behind_start : Behind word1 word2 ⟨0, 0, []⟩ 0 0 := by
  constructor <;> simp

/-- The cursors have caught up. -/
theorem behind_take (hi : i ≤ word1.length) (hj : j ≤ word2.length) :
    Behind word1 word2 ⟨i, j, word1.take i⟩ i j where
  i_le := hi
  j_le := hj
  ci_le := le_refl i
  diagonal := rfl
  out := rfl
  equal := by simp

/-- A pair of equal letters moves the walk only. -/
theorem Behind.keep (h : Behind word1 word2 c i j) (hi : i < word1.length)
    (hj : j < word2.length) (heq : word1[i] = word2[j]) :
    Behind word1 word2 c (i + 1) (j + 1) := by
  have hci := h.ci_le
  have hdiag := h.diagonal
  refine ⟨hi, hj, by omega, by omega, h.out, ?_⟩
  have h1 : word1.take (i + 1) = word1.take i ++ [word1[i]] := by simp
  have h2 : word2.take (j + 1) = word2.take j ++ [word2[j]] := by simp
  rw [h1, h2, List.drop_append_of_le_length (by simp; omega),
    List.drop_append_of_le_length (by simp; omega), h.equal, heq]

/-- Copying the diagonal brings the cursors to the walk. -/
theorem Behind.copy (h : Behind word1 word2 c i j) :
    copy word2 ((i : ℤ) - c.i) c = some ⟨i, j, word1.take i⟩ := by
  have hci := h.ci_le
  have hdiag := h.diagonal
  have hjle := h.j_le
  have hn : ((i : ℤ) - c.i).toNat = i - c.i := by omega
  have hj : c.j + (i - c.i) = j := by omega
  have hi : c.i + (i - c.i) = i := by omega
  have hcopied : (word2.drop c.j).take (i - c.i) = (word1.take i).drop c.i := by
    rw [h.equal, List.drop_take]
    congr 1
    omega
  have hout : c.out ++ (word1.take i).drop c.i = word1.take i := by
    have hpre : word1.take c.i = (word1.take i).take c.i := by
      rw [List.take_take, Nat.min_eq_left hci]
    rw [h.out, hpre, List.take_append_drop]
  unfold EditPass.copy
  rw [if_pos ⟨by omega, by omega⟩, hn, hcopied, hout, hi, hj]

theorem emit_eq (hi : i < word1.length) (c : Cursor) :
    emit word1 i c = some { c with out := c.out ++ [word1[i]] } := by
  simp [emit, hi]

/-- Each triple of the walk catches up and makes its move. -/
theorem Behind.insert (h : Behind word1 word2 c i j) (hi : i < word1.length) (p : ℤ) :
    replayStep word1 word2 c ⟨-2, i, p⟩ = some ⟨i + 1, j, word1.take (i + 1)⟩ := by
  simp [replayStep, h.copy, emit_eq hi]

theorem Behind.remove (h : Behind word1 word2 c i j) (hj : j < word2.length) (p : ℤ) :
    replayStep word1 word2 c ⟨-1, j, p⟩ = some ⟨i, j + 1, word1.take i⟩ := by
  have hgap : (j : ℤ) - c.j = (i : ℤ) - c.i := by
    have := h.diagonal
    omega
  simp [replayStep, hgap, h.copy, hj]

theorem Behind.replace (h : Behind word1 word2 c i j) (hi : i < word1.length)
    (hj : j < word2.length) (p : ℤ) :
    replayStep word1 word2 c ⟨i, j, p⟩ = some ⟨i + 1, j + 1, word1.take (i + 1)⟩ := by
  have hgap : (i : ℤ) - c.i = (j : ℤ) - c.j := by
    have := h.diagonal
    omega
  have hcopy := h.copy
  have h2 : ¬((i : ℤ) = -2) := by omega
  have h1 : ¬((i : ℤ) = -1) := by omega
  simp only [replayStep, h2, h1, if_false, hgap, if_true, Option.bind_eq_bind]
  rw [← hgap, hcopy]
  simp [emit_eq hi, hj]

/-- The cursors follow the walk, one triple at a time. -/
theorem Spells.exists_behind (h : Spells word1 word2 ts i j) :
    ∃ c, ts.foldlM (replayStep word1 word2) ⟨0, 0, []⟩ = some c ∧ Behind word1 word2 c i j := by
  induction h with
  | start => exact ⟨_, rfl, behind_start⟩
  | keep _ hi hj heq ih =>
    obtain ⟨c, hc, hb⟩ := ih
    exact ⟨c, hc, hb.keep hi hj heq⟩
  | insert p _ hi ih =>
    obtain ⟨c, hc, hb⟩ := ih
    refine ⟨_, ?_, behind_take hi hb.j_le⟩
    rw [foldlM_replayStep_concat, hc, Option.bind_some, hb.insert hi]
  | remove p _ hj ih =>
    obtain ⟨c, hc, hb⟩ := ih
    refine ⟨_, ?_, behind_take hb.i_le hj⟩
    rw [foldlM_replayStep_concat, hc, Option.bind_some, hb.remove hj]
  | replace p _ hi hj ih =>
    obtain ⟨c, hc, hb⟩ := ih
    refine ⟨_, ?_, behind_take hi hj⟩
    rw [foldlM_replayStep_concat, hc, Option.bind_some, hb.replace hi hj]

/-- A walk to the ends of both words replays to `word1`. -/
theorem Spells.replay_eq (h : Spells word1 word2 ts word1.length word2.length) :
    replay word1 word2 ts = some word1 := by
  obtain ⟨c, hc, hb⟩ := h.exists_behind
  have heq : word1.drop c.i = word2.drop c.j := by simpa using hb.equal
  simp [replay, hc, hb.out, ← heq]

/-! ## The indices the triples name -/

/-- Increasing indices, all of them in `[0, n)`. -/
def Increasing (n : ℕ) (l : List ℤ) : Prop :=
  l.Pairwise (· < ·) ∧ ∀ a ∈ l, 0 ≤ a ∧ a < n

theorem Increasing.mono {n : ℕ} {l : List ℤ} (h : Increasing n l) : Increasing (n + 1) l :=
  ⟨h.1, fun a ha => ⟨(h.2 a ha).1, by have := (h.2 a ha).2; omega⟩⟩

theorem Increasing.concat {n : ℕ} {l : List ℤ} (h : Increasing n l) :
    Increasing (n + 1) (l ++ [(n : ℤ)]) := by
  refine ⟨List.pairwise_append.2 ⟨h.1, List.pairwise_singleton _ _, ?_⟩, ?_⟩
  · intro a ha b hb
    obtain rfl : b = n := by simpa using hb
    exact (h.2 a ha).2
  · intro a ha
    rcases List.mem_append.1 ha with ha | ha
    · exact h.mono.2 a ha
    · obtain rfl : a = n := by simpa using ha
      omega

theorem word1Indices_concat (ts : List Triple) (t : Triple) :
    word1Indices (ts ++ [t]) = word1Indices ts ++ word1Indices [t] := by
  simp [word1Indices]

theorem word2Indices_concat (ts : List Triple) (t : Triple) :
    word2Indices (ts ++ [t]) = word2Indices ts ++ word2Indices [t] := by
  simp [word2Indices]

/-- A walk names the indices of either word from left to right. -/
theorem Spells.increasing (h : Spells word1 word2 ts i j) :
    Increasing i (word1Indices ts) ∧ Increasing j (word2Indices ts) := by
  induction h with
  | start => simp [Increasing, word1Indices, word2Indices]
  | keep _ _ _ _ ih => exact ⟨ih.1.mono, ih.2.mono⟩
  | @insert ts i j p _ _ ih =>
    rw [word1Indices_concat, word2Indices_concat]
    exact ⟨by simpa [word1Indices] using ih.1.concat, by simpa [word2Indices] using ih.2⟩
  | @remove ts i j p _ _ ih =>
    rw [word1Indices_concat, word2Indices_concat]
    exact ⟨by simpa [word1Indices] using ih.1, by simpa [word2Indices] using ih.2.concat⟩
  | @replace ts i j p _ _ _ ih =>
    have h2 : ¬((i : ℤ) = -2) := by omega
    have h1 : ¬((i : ℤ) = -1) := by omega
    rw [word1Indices_concat, word2Indices_concat]
    exact ⟨by simpa [word1Indices, h1, h2] using ih.1.concat,
      by simpa [word2Indices, h2] using ih.2.concat⟩

/-- **The flat result replays to `word1`**, and names the indices of either word from
left to right, each of them in range. -/
theorem theEditPass_replay (word1 word2 buf : List ℤ)
    (hbuf : 3 * (editPass word1 word2).length ≤ buf.length) :
    ∃ buf' size, theEditPass word1 word2 buf = some (buf', size) ∧
      replay word1 word2 (decode (buf'.take size)) = some word1 ∧
      Increasing word1.length (word1Indices (decode (buf'.take size))) ∧
      Increasing word2.length (word2Indices (decode (buf'.take size))) := by
  have hspells := spells_editPass word1 word2
  refine ⟨_, _, theEditPass_eq hbuf, ?_⟩
  rw [List.take_left' (length_flat _), decode_flat]
  exact ⟨hspells.replay_eq, hspells.increasing⟩

/-- Two of three letters kept, one replaced. -/
theorem theEditPass_replay_one :
    ∃ buf' size, theEditPass [1, 2, 3] [1, 5, 3] [0, 0, 0] = some (buf', size) ∧
      replay [1, 2, 3] [1, 5, 3] (decode (buf'.take size)) = some [1, 2, 3] ∧
      Increasing 3 (word1Indices (decode (buf'.take size))) ∧
      Increasing 3 (word2Indices (decode (buf'.take size))) :=
  theEditPass_replay [1, 2, 3] [1, 5, 3] [0, 0, 0] (by decide)

end AudioCrash.EditPass
