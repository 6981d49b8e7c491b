import Mathlib.Data.List.Basic
import Mathlib.Tactic.Common

/-!
# The first element that passes a test, or else the last one

`firstOrLast q l` is the position of the first element of `l` that passes `q`, and the last
position when none does.

A sequence of items may carry two stamps each, and end in items that carry the second stamp
only. `Agree` says when both sequences of stamps choose the same item.

## Main definitions

* `firstOrLast`
* `Agree`, `agree_iff`
-/

namespace AudioCrash

universe u
variable {α : Type u} {q : α → Bool}

/-- The position of the first element that passes `q`, or else of the last one. -/
def firstOrLast (q : α → Bool) (l : List α) : Option ℕ :=
  (l.findIdx? q).or (if l.length = 0 then none else some (l.length - 1))

@[simp] theorem firstOrLast_nil : firstOrLast q [] = none := rfl

theorem firstOrLast_eq_none_iff {l : List α} : firstOrLast q l = none ↔ l = [] := by
  cases l with
  | nil => simp
  | cons a l => simp [firstOrLast]

theorem firstOrLast_cons_of_true {a : α} (h : q a = true) (l : List α) :
    firstOrLast q (a :: l) = some 0 := by simp [firstOrLast, List.findIdx?_cons, h]

theorem firstOrLast_cons_of_false {a : α} (h : q a = false) {l : List α} (hl : l ≠ []) :
    firstOrLast q (a :: l) = (firstOrLast q l).map (· + 1) := by
  have hne : l.length ≠ 0 := by simpa using hl
  have hlast : l.length = l.length - 1 + 1 := by omega
  simp only [firstOrLast, List.findIdx?_cons, h, List.length_cons, if_neg hne,
    Nat.add_sub_cancel, Bool.false_eq_true, if_false, Nat.succ_ne_zero]
  cases l.findIdx? q with
  | some n => simp
  | none => simp [← hlast]

theorem firstOrLast_cons_eq_zero_iff {a : α} {l : List α} :
    firstOrLast q (a :: l) = some 0 ↔ q a = true ∨ l = [] := by
  cases h : q a with
  | true => simp [firstOrLast_cons_of_true h]
  | false =>
    by_cases hl : l = []
    · simp [hl, firstOrLast, List.findIdx?_cons, h]
    · rw [firstOrLast_cons_of_false h hl]
      cases firstOrLast q l <;> simp [hl]

/-- The items received carry two stamps, and those held back the second one only. The stamps
agree until both pass the test. Where one of them passes alone, the item is the last of all,
or it is the last received and its second stamp passes. When no item received passes, none is
held back. -/
def Agree (q : α → Bool) : List (α × α) → List α → Prop
  | [], held => held = []
  | (a, b) :: received, held =>
    if q a = q b then q a = true ∨ Agree q received held
    else received = [] ∧ (q b = true ∨ held = [])

section agree
variable {a b : α} {received : List (α × α)} {held : List α}

@[simp] theorem agree_nil : Agree q [] held ↔ held = [] := Iff.rfl

theorem agree_cons_of_eq (h : q a = q b) :
    Agree q ((a, b) :: received) held ↔ q a = true ∨ Agree q received held := by
  rw [Agree, if_pos h]

theorem agree_cons_of_ne (h : q a ≠ q b) :
    Agree q ((a, b) :: received) held ↔ received = [] ∧ (q b = true ∨ held = []) := by
  rw [Agree, if_neg h]

end agree

/-- **The two sequences of stamps choose the same item exactly when they agree.** -/
theorem agree_iff (received : List (α × α)) (held : List α) :
    Agree q received held ↔
      firstOrLast q (received.map Prod.fst) =
        firstOrLast q (received.map Prod.snd ++ held) := by
  induction received with
  | nil =>
    rw [List.map_nil, List.map_nil, firstOrLast_nil, List.nil_append, eq_comm,
      firstOrLast_eq_none_iff, agree_nil]
  | cons stamps received ih =>
    rcases stamps with ⟨a, b⟩
    rw [List.map_cons, List.map_cons, List.cons_append]
    cases ha : q a with
    | true =>
      have hzero : firstOrLast q (b :: (received.map Prod.snd ++ held)) = some 0 ↔
          q b = true ∨ received = [] ∧ held = [] := by
        rw [firstOrLast_cons_eq_zero_iff, List.append_eq_nil_iff, List.map_eq_nil_iff]
      rw [firstOrLast_cons_of_true ha, eq_comm, hzero]
      cases hb : q b with
      | true => simp [agree_cons_of_eq (ha.trans hb.symm), ha]
      | false => simp [agree_cons_of_ne (q := q) (a := a) (b := b) (by simp [ha, hb]), hb]
    | false =>
      cases hb : q b with
      | true =>
        rw [firstOrLast_cons_of_true hb, firstOrLast_cons_eq_zero_iff, List.map_eq_nil_iff,
          agree_cons_of_ne (by simp [ha, hb])]
        simp [ha, hb]
      | false =>
        rw [agree_cons_of_eq (ha.trans hb.symm)]
        by_cases hreceived : received = []
        · subst hreceived
          have hfirst : firstOrLast q [a] = some 0 := firstOrLast_cons_eq_zero_iff.2 (Or.inr rfl)
          rw [List.map_nil, List.map_nil, List.nil_append, hfirst, eq_comm (a := some 0),
            firstOrLast_cons_eq_zero_iff, agree_nil]
          simp [ha, hb]
        · have hmap : received.map Prod.fst ≠ [] := by simpa using hreceived
          have happend : received.map Prod.snd ++ held ≠ [] := by simp [hreceived]
          rw [firstOrLast_cons_of_false ha hmap, firstOrLast_cons_of_false hb happend,
            (Option.map_injective fun m n h => Nat.succ.inj h).eq_iff, ih]
          simp [ha]

end AudioCrash
