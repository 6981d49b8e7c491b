import Mathlib.Algebra.BigOperators.Group.Finset.Basic
import Mathlib.Tactic.Linarith

/-!
# Sorted maps as finite functions

A `std::map` is a `Std.TreeMap`. A loop over such a map visits every key once, so a sum
over the items is a sum over the finite set of keys, and a loop that updates another map
at the visited keys updates each of them once, whatever the order.

## Main definitions

* `keySet t` — the keys of a map, as a finite set.
* `sum_map_toList` — a sum over the items.
* `updateEach`, `getD_updateEach` — a loop that updates another map key by key.
-/

namespace AudioCrash.KeyedMap

open Std

universe u v
variable {κ : Type u} {β : Type v} [Ord κ]

/-- A loop over items that updates a map at the key of each item. -/
def updateEach {γ : Type*} (g : κ × β → γ → γ) (d : γ) (l : List (κ × β)) (m : TreeMap κ γ) :
    TreeMap κ γ :=
  l.foldl (fun m x => m.insert x.1 (g x (m.getD x.1 d))) m

section Items
variable [TransOrd κ]

/-- The items of a map have distinct keys. -/
theorem nodup_map_fst_toList (t : TreeMap κ β) : (t.toList.map Prod.fst).Nodup := by
  rw [TreeMap.map_fst_toList_eq_keys]
  exact TreeMap.nodup_keys

variable [LawfulEqOrd κ]

/-- An item of a map is a key with its value. -/
theorem getD_of_mem_toList {t : TreeMap κ β} {x : κ × β} (h : x ∈ t.toList) (d : β) :
    t.getD x.1 d = x.2 := by
  rw [TreeMap.getD_eq_getD_getElem?, TreeMap.mem_toList_iff_getElem?_eq_some.1 h]
  rfl

/-- Every key of a map has an item. -/
theorem exists_mem_toList {t : TreeMap κ β} {k : κ} (h : k ∈ t) (d : β) :
    (k, t.getD k d) ∈ t.toList := by
  rw [TreeMap.mem_toList_iff_getElem?_eq_some]
  exact TreeMap.getElem?_eq_some_getD h

/-- The keys of a map, as a finite set. -/
def keySet [DecidableEq κ] (t : TreeMap κ β) : Finset κ := t.keys.toFinset

@[simp] theorem mem_keySet [DecidableEq κ] {t : TreeMap κ β} {k : κ} : k ∈ keySet t ↔ k ∈ t := by
  simp [keySet]

/-- **A sum over the items of a map is a sum over its keys.** -/
theorem sum_map_toList [DecidableEq κ] (t : TreeMap κ β) (d : β) (f : κ → β → ℕ) :
    (t.toList.map fun x => f x.1 x.2).sum = ∑ k ∈ keySet t, f k (t.getD k d) := by
  rw [keySet, List.sum_toFinset _ TreeMap.nodup_keys, ← TreeMap.map_fst_toList_eq_keys,
    List.map_map]
  congr 1
  refine List.map_congr_left ?_
  intro x hx
  simp [getD_of_mem_toList hx d]

end Items

section UpdateEach
variable [TransOrd κ] [LawfulEqOrd κ] {γ : Type*} {g : κ × β → γ → γ} {d : γ}

theorem getD_updateEach_of_notMem {l : List (κ × β)} {m : TreeMap κ γ} {k : κ}
    (h : k ∉ l.map Prod.fst) : (updateEach g d l m).getD k d = m.getD k d := by
  induction l generalizing m with
  | nil => rfl
  | cons x l ih =>
    have hne : x.1 ≠ k := by intro heq; exact h (by simp [heq])
    have hl : k ∉ l.map Prod.fst := by intro hk; exact h (List.mem_cons_of_mem _ hk)
    have hstep := ih (m := m.insert x.1 (g x (m.getD x.1 d))) hl
    rw [TreeMap.getD_insert, if_neg (by simpa using hne)] at hstep
    exact hstep

/-- **Each visited key is updated once.** -/
theorem getD_updateEach {l : List (κ × β)} {m : TreeMap κ γ} (hl : (l.map Prod.fst).Nodup)
    {x : κ × β} (hx : x ∈ l) : (updateEach g d l m).getD x.1 d = g x (m.getD x.1 d) := by
  induction l generalizing m with
  | nil => simp at hx
  | cons y l ih =>
    rw [List.map_cons, List.nodup_cons] at hl
    rcases List.mem_cons.1 hx with rfl | hx
    · have hrest := getD_updateEach_of_notMem (g := g) (d := d)
        (m := m.insert x.1 (g x (m.getD x.1 d))) hl.1
      rw [TreeMap.getD_insert_self] at hrest
      exact hrest
    · have hne : y.1 ≠ x.1 := by
        intro heq
        exact hl.1 (heq ▸ List.mem_map_of_mem hx)
      have hstep := ih (m := m.insert y.1 (g y (m.getD y.1 d))) hl.2 hx
      rw [TreeMap.getD_insert, if_neg (by simpa using hne)] at hstep
      exact hstep

theorem mem_updateEach {l : List (κ × β)} {m : TreeMap κ γ} {k : κ} :
    k ∈ updateEach g d l m ↔ k ∈ m ∨ k ∈ l.map Prod.fst := by
  induction l generalizing m with
  | nil => simp [updateEach]
  | cons x l ih =>
    have hstep := ih (m := m.insert x.1 (g x (m.getD x.1 d)))
    rw [TreeMap.mem_insert] at hstep
    simp only [LawfulEqCmp.compare_eq_iff_eq] at hstep
    rw [List.map_cons, List.mem_cons, eq_comm (a := k)]
    constructor
    · intro h
      rcases hstep.1 h with (h | h) | h
      · exact Or.inr (Or.inl h)
      · exact Or.inl h
      · exact Or.inr (Or.inr h)
    · rintro (h | h | h)
      · exact hstep.2 (Or.inl (Or.inr h))
      · exact hstep.2 (Or.inl (Or.inl h))
      · exact hstep.2 (Or.inr h)

end UpdateEach

end AudioCrash.KeyedMap
