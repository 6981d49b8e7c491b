import Mathlib.Data.Multiset.AddSub
import Mathlib.Data.List.Induction
import Mathlib.Logic.Function.Basic
import Mathlib.Tactic.Common

/-!
# Reference counts

A heap of counted cells. A cell is made with one reference, a reference is added to a cell and
taken away from it, and the cell is freed with its last reference. Using a cell that has been
freed fails. Only who holds the one reference to a cell may change what it holds.

The heap is `Balanced` against a multiset when every cell has as many references as it occurs
there. Whatever somebody does with the references that are his own leaves the cells of all the
others there, and as they are (`Balanced.uses`).

## Main definitions

* `Heap.create`, `Heap.ref`, `Heap.unref`, `Heap.write` — the operations on one cell.
* `Heap.refAll`, `Heap.unrefAll`, `Heap.createAll`, `Heap.writeAll` — on several cells.
* `Balanced` — the counts are those of the references held.
* `Use`, `Heap.uses` — what a holder may do.
-/

namespace AudioCrash.RefCount

universe u
variable {β : Type u}

/-- Cells with a count of their references. The count of a cell that has been freed, or not been
made, is zero. -/
structure Heap (β : Type u) where
  count : ℕ → ℕ
  data : ℕ → β
  /-- The cells made so far. -/
  next : ℕ

namespace Heap

/-! ## The operations -/

/-- A new cell, with one reference. -/
def create (b : β) (h : Heap β) : Heap β where
  count := Function.update h.count h.next 1
  data := Function.update h.data h.next b
  next := h.next + 1

/-- One more reference. -/
def ref (i : ℕ) (h : Heap β) : Option (Heap β) :=
  if h.count i = 0 then none
  else some { h with count := Function.update h.count i (h.count i + 1) }

/-- One reference less. -/
def unref (i : ℕ) (h : Heap β) : Option (Heap β) :=
  if h.count i = 0 then none
  else some { h with count := Function.update h.count i (h.count i - 1) }

/-- The content of a cell. -/
def read (i : ℕ) (h : Heap β) : Option β := if h.count i = 0 then none else some (h.data i)

/-- There is no other reference. -/
def isWritable (i : ℕ) (h : Heap β) : Bool := h.count i == 1

def write (b : β) (h : Heap β) (i : ℕ) : Heap β := { h with data := Function.update h.data i b }

/-- One more reference to each of the cells. -/
def refAll : List ℕ → Heap β → Option (Heap β)
  | [], h => some h
  | i :: l, h => (h.ref i).bind (refAll l)

/-- One reference less to each of the cells. -/
def unrefAll : List ℕ → Heap β → Option (Heap β)
  | [], h => some h
  | i :: l, h => (h.unref i).bind (unrefAll l)

/-- New cells, which all hold `b`. -/
def createAll (b : β) : ℕ → Heap β → Heap β × List ℕ
  | 0, h => (h, [])
  | n + 1, h =>
    let rest := createAll b n (h.create b)
    (rest.1, h.next :: rest.2)

def writeAll (b : β) (l : List ℕ) (h : Heap β) : Heap β := l.foldl (write b) h

end Heap

/-! ## Balance -/

/-- Every cell has as many references as `m` says. -/
structure Balanced (h : Heap β) (m : Multiset ℕ) : Prop where
  count : ∀ i, h.count i = m.count i
  fresh : ∀ i, h.next ≤ i → h.count i = 0

namespace Balanced
variable {h : Heap β} {m : Multiset ℕ} {i : ℕ} {b : β}

theorem count_ne_zero (hb : Balanced h m) (hi : i ∈ m) : h.count i ≠ 0 := by
  rw [hb.count i]
  exact (Multiset.count_pos.2 hi).ne'

theorem lt_next (hb : Balanced h m) (hi : i ∈ m) : i < h.next := by
  by_contra hge
  exact hb.count_ne_zero hi (hb.fresh i (not_lt.1 hge))

/-- A cell that is referred to can be read. -/
theorem read_eq (hb : Balanced h m) (hi : i ∈ m) : h.read i = some (h.data i) :=
  if_neg (hb.count_ne_zero hi)

theorem create (hb : Balanced h m) (b : β) : Balanced (h.create b) (h.next ::ₘ m) where
  count j := by
    by_cases hj : j = h.next
    · subst hj
      rw [Multiset.count_cons_self, ← hb.count, hb.fresh _ le_rfl]
      exact Function.update_self _ _ _
    · rw [Multiset.count_cons_of_ne hj, ← hb.count]
      exact Function.update_of_ne hj _ _
  fresh j hj := by
    have hne : j ≠ h.next := (Nat.lt_of_succ_le hj).ne'
    exact (Function.update_of_ne hne _ _).trans (hb.fresh j (Nat.le_of_succ_le hj))

theorem ref (hb : Balanced h m) (hi : i ∈ m) :
    ∃ h', h.ref i = some h' ∧ Balanced h' (i ::ₘ m) ∧ h'.data = h.data := by
  refine ⟨_, if_neg (hb.count_ne_zero hi), ⟨fun j => ?_, fun j hj => ?_⟩, rfl⟩
  · by_cases hj : j = i
    · subst hj
      rw [Multiset.count_cons_self, ← hb.count]
      exact Function.update_self _ _ _
    · rw [Multiset.count_cons_of_ne hj, ← hb.count]
      exact Function.update_of_ne hj _ _
  · have hne : j ≠ i := ((hb.lt_next hi).trans_le hj).ne'
    exact (Function.update_of_ne hne _ _).trans (hb.fresh j hj)

theorem unref (hb : Balanced h (i ::ₘ m)) :
    ∃ h', h.unref i = some h' ∧ Balanced h' m ∧ h'.data = h.data := by
  have hi : i ∈ i ::ₘ m := Multiset.mem_cons_self i m
  refine ⟨_, if_neg (hb.count_ne_zero hi), ⟨fun j => ?_, fun j hj => ?_⟩, rfl⟩
  · by_cases hj : j = i
    · subst hj
      have hcount := hb.count j
      rw [Multiset.count_cons_self] at hcount
      rw [← Nat.add_sub_cancel (Multiset.count j m) 1, ← hcount]
      exact Function.update_self _ _ _
    · rw [← Multiset.count_cons_of_ne hj m, ← hb.count]
      exact Function.update_of_ne hj _ _
  · have hne : j ≠ i := ((hb.lt_next hi).trans_le hj).ne'
    exact (Function.update_of_ne hne _ _).trans (hb.fresh j hj)

/-- Writing is no matter of references. -/
theorem write (hb : Balanced h m) : Balanced (h.write b i) m := ⟨hb.count, hb.fresh⟩

/-- Nobody else refers to a cell that is writable. -/
theorem notMem_of_isWritable (hb : Balanced h (i ::ₘ m)) (hw : h.isWritable i = true) :
    i ∉ m := by
  have hone : h.count i = 1 := beq_iff_eq.1 hw
  rw [hb.count, Multiset.count_cons_self, Nat.succ_inj] at hone
  exact Multiset.count_eq_zero.1 hone

/-! ## Several cells -/

theorem refAll {l : List ℕ} (hb : Balanced h m) (hl : ∀ i ∈ l, i ∈ m) :
    ∃ h', h.refAll l = some h' ∧ Balanced h' (↑l + m) ∧ h'.data = h.data := by
  induction l generalizing h m with
  | nil => exact ⟨h, rfl, by rwa [Multiset.coe_nil, Multiset.zero_add], rfl⟩
  | cons i l ih =>
    rw [List.forall_mem_cons] at hl
    rcases hb.ref hl.1 with ⟨h₁, heq, hb₁, hdata₁⟩
    rcases ih hb₁ fun j hj => Multiset.mem_cons_of_mem (hl.2 j hj) with ⟨h₂, heq₂, hb₂, hdata₂⟩
    refine ⟨h₂, ?_, ?_, hdata₂.trans hdata₁⟩
    · rw [Heap.refAll, heq, Option.bind_some, heq₂]
    · rwa [Multiset.add_cons, ← Multiset.cons_add, Multiset.cons_coe] at hb₂

theorem unrefAll {l : List ℕ} (hb : Balanced h (↑l + m)) :
    ∃ h', h.unrefAll l = some h' ∧ Balanced h' m ∧ h'.data = h.data := by
  induction l generalizing h with
  | nil => exact ⟨h, rfl, by rwa [Multiset.coe_nil, Multiset.zero_add] at hb, rfl⟩
  | cons i l ih =>
    rw [← Multiset.cons_coe, Multiset.cons_add] at hb
    rcases hb.unref with ⟨h₁, heq, hb₁, hdata₁⟩
    rcases ih hb₁ with ⟨h₂, heq₂, hb₂, hdata₂⟩
    refine ⟨h₂, ?_, hb₂, hdata₂.trans hdata₁⟩
    rw [Heap.unrefAll, heq, Option.bind_some, heq₂]

/-- New cells hold what they are made with, and the others what they held. -/
theorem createAll (hb : Balanced h m) (b : β) (n : ℕ) :
    Balanced (h.createAll b n).1 (↑(h.createAll b n).2 + m) ∧
      (∀ i ∈ (h.createAll b n).2, (h.createAll b n).1.data i = b) ∧
      ∀ i < h.next, (h.createAll b n).1.data i = h.data i := by
  induction n generalizing h m with
  | zero =>
    refine ⟨?_, fun i hi => absurd hi List.not_mem_nil, fun i _ => rfl⟩
    rwa [Heap.createAll, Multiset.coe_nil, Multiset.zero_add]
  | succ n ih =>
    rcases ih (hb.create b) with ⟨hb', hnew, hold⟩
    have hdata : ∀ i < h.next, (h.create b).data i = h.data i := fun i hi =>
      Function.update_of_ne hi.ne _ _
    refine ⟨?_, ?_, ?_⟩
    · rwa [Multiset.add_cons, ← Multiset.cons_add, Multiset.cons_coe] at hb'
    · rw [Heap.createAll, List.forall_mem_cons]
      exact ⟨(hold _ (Nat.lt_succ_self _)).trans (Function.update_self _ _ _), hnew⟩
    · intro i hi
      exact (hold i (Nat.lt_succ_of_lt hi)).trans (hdata i hi)

end Balanced

theorem Heap.writeAll_data {b : β} (l : List ℕ) (h : Heap β) (i : ℕ) :
    (h.writeAll b l).data i = if i ∈ l then b else h.data i := by
  induction l using List.reverseRecOn with
  | nil => rfl
  | append_singleton l j ih =>
    have hstep : h.writeAll b (l ++ [j]) = (h.writeAll b l).write b j := by
      rw [writeAll, List.foldl_append]
      rfl
    simp only [hstep, List.mem_append, List.mem_singleton]
    by_cases hij : i = j
    · subst hij
      rw [if_pos (Or.inr rfl)]
      exact Function.update_self _ _ _
    · simp only [hij, or_false]
      exact (Function.update_of_ne hij _ _).trans ih

theorem Balanced.notMem_of_all_isWritable {h : Heap β} {m : Multiset ℕ} {l : List ℕ} {i : ℕ}
    (hb : Balanced h (↑l + m)) (hw : (l.all fun i => h.isWritable i) = true) (hi : i ∈ l) :
    i ∉ m := by
  have hperm := Multiset.coe_eq_coe.2 (List.perm_cons_erase hi)
  rw [hperm, ← Multiset.cons_coe, Multiset.cons_add] at hb
  intro hmem
  exact hb.notMem_of_isWritable (List.all_eq_true.1 hw i hi) (Multiset.mem_add.2 (Or.inr hmem))

theorem Balanced.writeAll {h : Heap β} {m : Multiset ℕ} {b : β} (hb : Balanced h m)
    (l : List ℕ) : Balanced (h.writeAll b l) m := by
  induction l generalizing h with
  | nil => exact hb
  | cons i l ih => exact ih hb.write

/-! ## What a holder may do -/

/-- One step of a holder, on the `k`-th of the references he has. -/
inductive Use (β : Type u) where
  | ref (k : ℕ)
  | unref (k : ℕ)
  | create (b : β)
  /-- Change a cell to which there is no other reference. -/
  | write (k : ℕ) (b : β)

namespace Heap

/-- A step of the holder of `held`. -/
def use (h : Heap β) (held : List ℕ) : Use β → Option (Heap β × List ℕ)
  | .ref k => (held[k]?).elim (some (h, held)) fun i => (h.ref i).map (·, i :: held)
  | .unref k => (held[k]?).elim (some (h, held)) fun i => (h.unref i).map (·, held.eraseIdx k)
  | .create b => some (h.create b, h.next :: held)
  | .write k b => (held[k]?).elim (some (h, held)) fun i =>
      some (if h.isWritable i then h.write b i else h, held)

/-- Steps of the holder of `held`. -/
def uses : List (Use β) → Heap β → List ℕ → Option (Heap β × List ℕ)
  | [], h, held => some (h, held)
  | u :: us, h, held => (h.use held u).bind fun p => uses us p.1 p.2

end Heap

namespace Balanced
variable {h : Heap β} {m : Multiset ℕ}

/-- A step of a holder leaves the cells of the others there, and as they are. -/
theorem use {held : List ℕ} (hb : Balanced h (↑held + m)) (u : Use β) :
    ∃ h' held', h.use held u = some (h', held') ∧ Balanced h' (↑held' + m) ∧
      ∀ i ∈ m, h'.data i = h.data i := by
  have hsame : ∃ h' held', some (h, held) = some (h', held') ∧
      Balanced h' (↑held' + m) ∧ ∀ i ∈ m, h'.data i = h.data i :=
    ⟨h, held, rfl, hb, fun _ _ => rfl⟩
  have hmem : ∀ {k i : ℕ}, held[k]? = some i → i ∈ (↑held : Multiset ℕ) := by
    intro k i hk
    exact Multiset.mem_coe.2 (List.mem_of_getElem? hk)
  have hperm : ∀ {k i : ℕ}, held[k]? = some i →
      (↑held : Multiset ℕ) = i ::ₘ ↑(held.eraseIdx k) := by
    intro k i hk
    rcases List.getElem?_eq_some_iff.1 hk with ⟨hlt, rfl⟩
    rw [Multiset.cons_coe, Multiset.coe_eq_coe]
    exact (List.getElem_cons_eraseIdx_perm hlt).symm
  cases u with
  | ref k =>
    cases hk : held[k]? with
    | none => simpa only [Heap.use, hk, Option.elim_none] using hsame
    | some i =>
      rcases hb.ref (Multiset.mem_add.2 (Or.inl (hmem hk))) with ⟨h', heq, hb', hdata⟩
      refine ⟨h', i :: held, ?_, ?_, fun j _ => congrFun hdata j⟩
      · simp only [Heap.use, hk, Option.elim_some, heq, Option.map_some]
      · rwa [← Multiset.cons_coe, Multiset.cons_add]
  | unref k =>
    cases hk : held[k]? with
    | none => simpa only [Heap.use, hk, Option.elim_none] using hsame
    | some i =>
      rw [hperm hk, Multiset.cons_add] at hb
      rcases hb.unref with ⟨h', heq, hb', hdata⟩
      refine ⟨h', held.eraseIdx k, ?_, hb', fun j _ => congrFun hdata j⟩
      simp only [Heap.use, hk, Option.elim_some, heq, Option.map_some]
  | create b =>
    refine ⟨h.create b, h.next :: held, rfl, ?_, ?_⟩
    · rw [← Multiset.cons_coe, Multiset.cons_add]
      exact hb.create b
    · intro i hi
      exact Function.update_of_ne (hb.lt_next (Multiset.mem_add.2 (Or.inr hi))).ne _ _
  | write k b =>
    cases hk : held[k]? with
    | none => simpa only [Heap.use, hk, Option.elim_none] using hsame
    | some i =>
      by_cases hw : h.isWritable i = true
      · refine ⟨h.write b i, held, ?_, hb.write, ?_⟩
        · simp only [Heap.use, hk, Option.elim_some, if_pos hw]
        · intro j hj
          rw [hperm hk, Multiset.cons_add] at hb
          have hnot := hb.notMem_of_isWritable hw
          refine Function.update_of_ne ?_ _ _
          rintro rfl
          exact hnot (Multiset.mem_add.2 (Or.inr hj))
      · refine ⟨h, held, ?_, hb, fun _ _ => rfl⟩
        simp only [Heap.use, hk, Option.elim_some, if_neg hw]

/-- **Whatever a holder does with his references**, the cells of the others stay there, and as
they are. -/
theorem uses {held : List ℕ} (hb : Balanced h (↑held + m)) (us : List (Use β)) :
    ∃ h' held', h.uses us held = some (h', held') ∧ Balanced h' (↑held' + m) ∧
      ∀ i ∈ m, h'.data i = h.data i := by
  induction us generalizing h held with
  | nil => exact ⟨h, held, rfl, hb, fun _ _ => rfl⟩
  | cons u us ih =>
    rcases hb.use u with ⟨h₁, held₁, heq, hb₁, hdata₁⟩
    rcases ih hb₁ with ⟨h₂, held₂, heq₂, hb₂, hdata₂⟩
    refine ⟨h₂, held₂, ?_, hb₂, fun i hi => (hdata₂ i hi).trans (hdata₁ i hi)⟩
    rw [Heap.uses, heq, Option.bind_some, heq₂]

end Balanced

end AudioCrash.RefCount
