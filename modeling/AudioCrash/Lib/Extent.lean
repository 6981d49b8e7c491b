import Mathlib.Data.List.TakeDrop
import Mathlib.Data.List.Range
import Mathlib.Tactic.Common

/-!
# A queue in a stretch of a buffer

The queue occupies the cells from `index` up to `index + count` of a buffer of `capacity`
cells. What is taken out moves `index` forward. What is added needs cells behind the queue:
where the buffer ends too early, the queue slides to the front if the cells that it has left
behind are as many as it needs, and the buffer is enlarged to twice the size otherwise.

Sliding is what bounds the buffer: it grows only while the queue is longer than the cells left
behind, so that the capacity is at most four times the longest queue (`place_capacity_le`),
however much has gone through it.

## Main definitions

* `Extent`, `Extent.take`, `Extent.slide`, `Extent.enlarge`, `Extent.append` — the moves.
* `Extent.place` — add elements under a limit of the size and a limit of the memory.
* `Extent.place_isSome`, `Extent.place_capacity_le` — when it succeeds, and the capacity.
* `Extent.content` — the elements of the queue, and what the moves make of them.
* `Queue`, `Queue.exchange`, `Queue.exchange_items` — the queue, with its elements.
-/

namespace AudioCrash

universe u

/-- `count` cells from `index` on, in a buffer of `capacity` cells. -/
structure Extent where
  capacity : ℕ
  index : ℕ
  count : ℕ
  le : index + count ≤ capacity
  deriving DecidableEq, Repr

namespace Extent

/-! ## The moves -/

/-- No buffer has been allocated. -/
def empty : Extent := ⟨0, 0, 0, le_rfl⟩

/-- Take `n` elements out, or all of them. An empty queue starts again at the front. -/
def take (n : ℕ) (e : Extent) : Extent :=
  if h : n < e.count then ⟨e.capacity, e.index + n, e.count - n, by have := e.le; omega⟩
  else ⟨e.capacity, 0, 0, Nat.zero_le _⟩

/-- The queue moves to the front. -/
def slide (e : Extent) : Extent := ⟨e.capacity, 0, e.count, by have := e.le; omega⟩

/-- The buffer is enlarged. -/
def enlarge (capacity : ℕ) (e : Extent) : Extent :=
  ⟨max e.capacity capacity, e.index, e.count, e.le.trans (le_max_left _ _)⟩

/-- The queue grows by `n` elements that there is room for. -/
def append (n : ℕ) (e : Extent) (h : e.index + e.count + n ≤ e.capacity) : Extent :=
  ⟨e.capacity, e.index, e.count + n, by omega⟩

variable (e : Extent) (n : ℕ)

@[simp] theorem take_capacity : (e.take n).capacity = e.capacity := by
  simp only [take]
  split_ifs <;> rfl
@[simp] theorem take_count : (e.take n).count = e.count - n := by
  simp only [take]
  split_ifs with h
  · rfl
  · exact (Nat.sub_eq_zero_of_le (not_lt.1 h)).symm
theorem take_index : (e.take n).index = if n < e.count then e.index + n else 0 := by
  simp only [take]
  split_ifs <;> rfl
theorem take_zero_index {e : Extent} (h0 : e.index = 0) : (e.take 0).index = 0 := by
  rw [take_index, Nat.add_zero, h0, ite_self]
/-- The queue does not reach further than before. -/
theorem take_end_le : (e.take n).index + (e.take n).count ≤ e.index + e.count := by
  rw [take_index, take_count]
  split_ifs <;> omega
@[simp] theorem slide_capacity : e.slide.capacity = e.capacity := rfl
@[simp] theorem slide_index : e.slide.index = 0 := rfl
@[simp] theorem slide_count : e.slide.count = e.count := rfl
@[simp] theorem enlarge_capacity : (e.enlarge n).capacity = max e.capacity n := rfl
@[simp] theorem enlarge_index : (e.enlarge n).index = e.index := rfl
@[simp] theorem enlarge_count : (e.enlarge n).count = e.count := rfl

/-! ## Adding elements -/

/-- The cells behind the queue do not suffice for `n` elements, and those left behind do. -/
def slides : Bool := e.capacity < e.index + e.count + n && e.count + n ≤ e.index

theorem slides_iff :
    e.slides n = true ↔ e.capacity < e.index + e.count + n ∧ e.count + n ≤ e.index := by
  simp [slides]

theorem slide_room {e : Extent} {n : ℕ} (h : e.slides n = true) :
    e.slide.index + e.slide.count + n ≤ e.slide.capacity := by
  have hle := e.le
  rw [slides_iff] at h
  simp only [slide_index, slide_count, slide_capacity]
  omega

theorem enlarge_room : (e.enlarge (2 * (e.index + e.count + n))).index +
    (e.enlarge (2 * (e.index + e.count + n))).count + n ≤
      (e.enlarge (2 * (e.index + e.count + n))).capacity := by
  simp only [enlarge_index, enlarge_count, enlarge_capacity]
  omega

/-- Add `n` elements. Sizes are under a limit, whether or not the buffer has to be enlarged,
and there is memory for some sizes only. -/
def place (limit memory : ℕ → Bool) : Option Extent :=
  if h : e.slides n = true then
    some (e.slide.append n (slide_room h))
  else if !limit (e.index + e.count + n) then none
  else if h : e.index + e.count + n ≤ e.capacity then some (e.append n h)
  else if memory (e.index + e.count + n) then
    some ((e.enlarge (2 * (e.index + e.count + n))).append n (enlarge_room e n))
  else none

section place
variable {e n} {limit memory : ℕ → Bool} {e' : Extent}

theorem place_of_slides (h : e.slides n = true) :
    ∃ room, e.place n limit memory = some (e.slide.append n room) :=
  ⟨_, dif_pos h⟩

theorem place_of_not_limit (h : e.slides n = false)
    (hlimit : limit (e.index + e.count + n) = false) : e.place n limit memory = none := by
  simp [place, h, hlimit]

theorem place_of_le (h : e.slides n = false) (hlimit : limit (e.index + e.count + n) = true)
    (hle : e.index + e.count + n ≤ e.capacity) :
    e.place n limit memory = some (e.append n hle) := by
  simp [place, h, hlimit, hle]

theorem place_of_memory (h : e.slides n = false) (hlimit : limit (e.index + e.count + n) = true)
    (hlt : e.capacity < e.index + e.count + n)
    (hmemory : memory (e.index + e.count + n) = true) :
    ∃ room, e.place n limit memory =
      some ((e.enlarge (2 * (e.index + e.count + n))).append n room) := by
  refine ⟨enlarge_room e n, ?_⟩
  simp [place, h, hlimit, not_le.2 hlt, hmemory]

theorem place_of_not_memory (h : e.slides n = false) (hlt : e.capacity < e.index + e.count + n)
    (hmemory : memory (e.index + e.count + n) = false) : e.place n limit memory = none := by
  simp [place, h, not_le.2 hlt, hmemory]

theorem place_count (h : e.place n limit memory = some e') : e'.count = e.count + n := by
  simp only [place] at h
  split_ifs at h <;> cases h <;> rfl

/-- A buffer at whose front the queue stands stays so. -/
theorem place_index (h : e.place n limit memory = some e') (h0 : e.index = 0) :
    e'.index = 0 := by
  simp only [place] at h
  split_ifs at h <;> cases h
  · rfl
  · exact h0
  · exact h0

/-- **The capacity stays below four times the longest queue.** -/
theorem place_capacity_le {m : ℕ} (h : e.place n limit memory = some e')
    (hcap : e.capacity ≤ 4 * m) (hm : e.count + n ≤ m) : e'.capacity ≤ 4 * m := by
  simp only [place] at h
  split_ifs at h with hslides hlimit hfits <;> cases h
  · exact hcap
  · exact hcap
  · rw [slides_iff] at hslides
    change max e.capacity (2 * (e.index + e.count + n)) ≤ 4 * m
    omega

/-- The buffer is at most twice as large as the sizes under the limit. -/
theorem place_capacity_le_of_limit {m : ℕ} (h : e.place n limit memory = some e')
    (hlimit : ∀ size, limit size = true → size ≤ m) (hcap : e.capacity ≤ 2 * m) :
    e'.capacity ≤ 2 * m := by
  simp only [place] at h
  split_ifs at h with hslides hover hfits <;> cases h
  · exact hcap
  · exact hcap
  · have hsize := hlimit (e.index + e.count + n) (by simpa using hover)
    change max e.capacity (2 * (e.index + e.count + n)) ≤ 2 * m
    omega

/-- At the front of the buffer the sizes are those of the queue. -/
theorem place_isSome_of_index {size : ℕ} (h0 : e.index = 0) (hsize : e.count + n ≤ size)
    (hlimit : ∀ k ≤ size, limit k = true) (hmemory : ∀ k ≤ size, memory k = true) :
    ∃ e', e.place n limit memory = some e' := by
  have hle : e.index + e.count + n ≤ size := by omega
  simp only [place, hlimit _ hle, hmemory _ hle, Bool.not_true, Bool.false_eq_true, if_false,
    if_true]
  split_ifs
  · exact ⟨_, rfl⟩
  · exact ⟨_, rfl⟩
  · exact ⟨_, rfl⟩

/-- **Elements can be added** when the sizes up to four times the longest queue are under the
limit, and there is memory for those up to twice of it. -/
theorem place_isSome {m : ℕ} (hcap : e.capacity ≤ 4 * m) (hm : e.count + n ≤ m)
    (hlimit : ∀ size ≤ 4 * m, limit size = true) (hmemory : ∀ size ≤ 2 * m, memory size = true) :
    ∃ e', e.place n limit memory = some e' := by
  simp only [place]
  split_ifs with hslides hno hfits hno'
  · exact ⟨_, rfl⟩
  · rw [slides_iff] at hslides
    have hsize : e.index + e.count + n ≤ 4 * m := by omega
    simp [hlimit _ hsize] at hno
  · exact ⟨_, rfl⟩
  · exact ⟨_, rfl⟩
  · rw [slides_iff] at hslides
    exact absurd (hmemory _ (by omega)) hno'

/-- At the front of the buffer only the length of the queue is under the limit. -/
theorem place_eq_none_of_index {size : ℕ} (h0 : e.index = 0) (hsize : e.count + n = size)
    (hlimit : limit size = false) : e.place n limit memory = none := by
  have hslides : ¬ e.slides n = true := by
    rw [slides_iff]
    have := e.le
    omega
  have hsum : e.index + e.count + n = size := by omega
  simp only [place, dif_neg hslides, hsum, hlimit, Bool.not_false, if_true]

end place

/-! ## The elements -/

section content
variable {β : Type u} (cell : ℕ → β)

/-- The elements of the queue. -/
def content : List β := (List.range e.count).map fun i => cell (e.index + i)

@[simp] theorem length_content : (e.content cell).length = e.count := by simp [content]

variable {cell} {cell' : ℕ → β} {e n}

/-- Cells in front of the queue or behind it do not matter. -/
theorem content_congr (h : ∀ i < e.count, cell' (e.index + i) = cell (e.index + i)) :
    e.content cell' = e.content cell :=
  List.map_congr_left fun i hi => h i (List.mem_range.1 hi)

/-- **Elements are taken out at the front.** -/
theorem content_take : (e.take n).content cell = (e.content cell).drop n := by
  apply List.ext_getElem
  · simp
  · intro i hi _
    have hlt : n < e.count := by
      simp at hi
      omega
    simp [content, take, hlt, Nat.add_assoc]

/-- What has been taken out is the front of the queue. -/
theorem take_content (h : n ≤ e.count) :
    (e.content cell).take n = (List.range n).map fun i => cell (e.index + i) := by
  rw [content, ← List.map_take, List.take_range, Nat.min_eq_left h]

/-- The elements move with the queue. -/
theorem content_slide (h : ∀ i < e.count, cell' i = cell (e.index + i)) :
    e.slide.content cell' = e.content cell := by
  refine List.map_congr_left fun i hi => ?_
  rw [slide_index, Nat.zero_add]
  exact h i (List.mem_range.1 hi)

variable (cell cell') in
/-- **Elements are added at the end.** -/
theorem content_append (room : e.index + e.count + n ≤ e.capacity)
    (hold : ∀ i < e.count, cell' (e.index + i) = cell (e.index + i)) :
    (e.append n room).content cell' =
      e.content cell ++ (List.range n).map fun i => cell' (e.index + e.count + i) := by
  have hsplit : (e.append n room).content cell' = e.content cell' ++
      (List.range n).map fun i => cell' (e.index + e.count + i) := by
    simp [content, append, List.range_add, Nat.add_assoc]
  rw [hsplit, content_congr hold]

end content
end Extent

/-! ## The queue -/

/-- Elements that are kept in a stretch of a buffer. -/
structure Queue (β : Type u) where
  items : List β
  extent : Extent
  length_eq : items.length = extent.count

namespace Queue
variable {β : Type u}

/-- Nothing has been put in. -/
def empty : Queue β := ⟨[], .empty, rfl⟩

/-- Take `n` elements out, or all of them. -/
def take (n : ℕ) (q : Queue β) : List β × Queue β :=
  (q.items.take n, ⟨q.items.drop n, q.extent.take n, by simp [q.length_eq]⟩)

/-- Put elements in. -/
def put (limit memory : ℕ → Bool) (xs : List β) (q : Queue β) : Option (Queue β) :=
  match h : q.extent.place xs.length limit memory with
  | none => none
  | some e => some ⟨q.items ++ xs, e, by simp [q.length_eq, Extent.place_count h]⟩

/-- Take `n` elements out, where `xs` come after those in the queue, and put the others of `xs`
in. -/
def exchange (limit memory : ℕ → Bool) (n : ℕ) (xs : List β) (q : Queue β) :
    Option (List β × Queue β) :=
  let (out, q) := q.take n
  let rest := n - out.length
  if xs.length ≤ rest then some (out ++ xs, q)
  else (q.put limit memory (xs.drop rest)).map fun q => (out ++ xs.take rest, q)

section exchange
variable {limit memory : ℕ → Bool} {n : ℕ} {xs : List β} {q q' : Queue β} {out : List β}

@[simp] theorem take_fst : (q.take n).1 = q.items.take n := rfl
@[simp] theorem take_snd_items : (q.take n).2.items = q.items.drop n := rfl
@[simp] theorem take_snd_extent : (q.take n).2.extent = q.extent.take n := rfl

theorem put_of_none (h : q.extent.place xs.length limit memory = none) :
    q.put limit memory xs = none := by
  simp only [put]
  split
  · rfl
  · rename_i heq
    rw [h] at heq
    cases heq

theorem put_of_some {e : Extent} (h : q.extent.place xs.length limit memory = some e)
    (hlen : (q.items ++ xs).length = e.count) :
    q.put limit memory xs = some ⟨q.items ++ xs, e, hlen⟩ := by
  simp only [put]
  split
  · rename_i heq
    rw [h] at heq
    cases heq
  · rename_i heq
    rw [h] at heq
    cases heq
    rfl

theorem put_items (h : q.put limit memory xs = some q') : q'.items = q.items ++ xs := by
  simp only [put] at h
  split at h
  · cases h
  · cases h
    rfl

/-- **First in, first out.** -/
theorem exchange_items (h : q.exchange limit memory n xs = some (out, q')) :
    out ++ q'.items = q.items ++ xs := by
  simp only [exchange] at h
  split_ifs at h with hall
  · cases h
    simp only [take_fst, List.length_take] at hall
    rcases Nat.lt_or_ge n q.items.length with hn | hn
    · have hnil : xs = [] := List.length_eq_zero_iff.1 (by omega)
      simp [hnil]
    · simp [List.take_of_length_le hn, List.drop_of_length_le hn]
  · rcases Option.map_eq_some_iff.1 h with ⟨q'', hput, heq⟩
    cases heq
    rw [put_items hput]
    simp only [take_fst, take_snd_items, List.length_take]
    rcases Nat.lt_or_ge n q.items.length with hn | hn
    · simp [Nat.min_eq_left hn.le, ← List.append_assoc]
    · simp [List.take_of_length_le hn, List.drop_of_length_le hn]

/-- As many elements come out as there are, or as are wanted. -/
theorem exchange_length (h : q.exchange limit memory n xs = some (out, q')) :
    out.length = min n (q.items.length + xs.length) := by
  simp only [exchange] at h
  split_ifs at h with hall
  · cases h
    simp only [take_fst, List.length_take] at hall
    simp
    omega
  · rcases Option.map_eq_some_iff.1 h with ⟨q'', _, heq⟩
    cases heq
    simp only [take_fst, List.length_take, not_le] at hall
    simp
    omega

/-- Where nothing is put in, the queue is taken from. -/
theorem exchange_nil : q.exchange limit memory n [] = some (q.items.take n, (q.take n).2) := by
  simp [exchange]

variable (limit memory xs q) in
/-- Where nothing is taken out, only the room may be missing. -/
theorem exchange_zero_cases :
    q.exchange limit memory 0 xs = some ([], (q.take 0).2) ∧ xs = [] ∨
      0 < xs.length ∧ q.exchange limit memory 0 xs =
        ((q.take 0).2.put limit memory xs).map fun q => ([], q) := by
  cases xs with
  | nil => exact Or.inl ⟨by simp [exchange], rfl⟩
  | cons x xs => exact Or.inr ⟨Nat.succ_pos _, by simp [exchange]⟩

theorem put_extent (h : q.put limit memory xs = some q') :
    q.extent.place xs.length limit memory = some q'.extent := by
  simp only [put] at h
  split at h
  · cases h
  · rename_i heq
    cases h
    exact heq

/-- The buffer is at most twice as large as the sizes under the limit. -/
theorem exchange_capacity_le {m : ℕ} (h : q.exchange limit memory n xs = some (out, q'))
    (hlimit : ∀ size, limit size = true → size ≤ m) (hcap : q.extent.capacity ≤ 2 * m) :
    q'.extent.capacity ≤ 2 * m := by
  have hcap' : (q.take n).2.extent.capacity ≤ 2 * m := by simpa using hcap
  simp only [exchange] at h
  split_ifs at h
  · cases h
    exact hcap'
  · rcases Option.map_eq_some_iff.1 h with ⟨q'', hput, heq⟩
    cases heq
    exact Extent.place_capacity_le_of_limit (put_extent hput) hlimit hcap'

/-- **Elements can be put in** when the sizes up to four times the longest queue are under the
limit, and the capacity stays below that. -/
theorem exchange_zero_isSome {m : ℕ} (hcap : q.extent.capacity ≤ 4 * m)
    (hm : q.items.length + xs.length ≤ m) (hlimit : ∀ size ≤ 4 * m, limit size = true)
    (hmemory : ∀ size ≤ 2 * m, memory size = true) :
    ∃ q', q.exchange limit memory 0 xs = some ([], q') ∧ q'.items = q.items ++ xs ∧
      q'.extent.capacity ≤ 4 * m := by
  rcases exchange_zero_cases limit memory xs q with ⟨hsome, rfl⟩ | ⟨_, heq⟩
  · exact ⟨_, hsome, by simp, by simpa using hcap⟩
  · have hcount : (q.take 0).2.extent.count + xs.length ≤ m := by
      rw [take_snd_extent, Extent.take_count, ← q.length_eq]
      exact hm
    have hcap' : (q.take 0).2.extent.capacity ≤ 4 * m := by simpa using hcap
    rcases Extent.place_isSome hcap' hcount hlimit hmemory with ⟨e, he⟩
    have hput := put_of_some he
      (by rw [List.length_append, (q.take 0).2.length_eq, Extent.place_count he])
    rw [hput] at heq
    refine ⟨_, heq, by simp, Extent.place_capacity_le he hcap' hcount⟩

/-- A queue at the front of the buffer stays there while nothing is taken out. -/
theorem exchange_zero_index (h0 : q.extent.index = 0)
    (h : q.exchange limit memory 0 xs = some (out, q')) : q'.extent.index = 0 := by
  have h0' : (q.take 0).2.extent.index = 0 := Extent.take_zero_index h0
  rcases exchange_zero_cases limit memory xs q with ⟨heq, _⟩ | ⟨_, heq⟩
  · rw [heq] at h
    cases h
    exact h0'
  · rw [heq] at h
    rcases Option.map_eq_some_iff.1 h with ⟨q'', hput, hpair⟩
    cases hpair
    exact Extent.place_index (put_extent hput) h0'

/-- A queue at the front of the buffer can be added to up to a size under the limit. -/
theorem exchange_zero_of_index {size : ℕ} (h0 : q.extent.index = 0)
    (hm : q.items.length + xs.length ≤ size) (hlimit : ∀ k ≤ size, limit k = true)
    (hmemory : ∀ k ≤ size, memory k = true) :
    ∃ q', q.exchange limit memory 0 xs = some ([], q') := by
  have h0' : (q.take 0).2.extent.index = 0 := Extent.take_zero_index h0
  rcases exchange_zero_cases limit memory xs q with ⟨hsome, _⟩ | ⟨_, heq⟩
  · exact ⟨_, hsome⟩
  · have hcount : (q.take 0).2.extent.count + xs.length ≤ size := by
      rw [take_snd_extent, Extent.take_count, ← q.length_eq]
      exact hm
    rcases Extent.place_isSome_of_index h0' hcount hlimit hmemory with ⟨e, he⟩
    have hput := put_of_some he
      (by rw [List.length_append, (q.take 0).2.length_eq, Extent.place_count he])
    rw [hput] at heq
    exact ⟨_, heq⟩

/-- What has been put in at the front of the buffer is under the limit. -/
theorem limit_of_exchange_zero {q' : Queue β} (h0 : q.extent.index = 0) (hne : xs ≠ [])
    (h : q.exchange limit memory 0 xs = some (out, q')) :
    limit (q.items.length + xs.length) = true := by
  rcases exchange_zero_cases limit memory xs q with ⟨_, hnil⟩ | ⟨_, heq⟩
  · exact absurd hnil hne
  · by_contra hlimit
    rw [Bool.not_eq_true] at hlimit
    have h0' : (q.take 0).2.extent.index = 0 := Extent.take_zero_index h0
    have hcount : (q.take 0).2.extent.count + xs.length = q.items.length + xs.length := by
      rw [take_snd_extent, Extent.take_count, ← q.length_eq, Nat.sub_zero]
    rw [heq, put_of_none (Extent.place_eq_none_of_index h0' hcount hlimit)] at h
    cases h

end exchange
end Queue
end AudioCrash
