import AudioCrash.Seek.Search
import Mathlib.Logic.Function.Basic

/-!
# The index of a stream

A demuxer adds the packets that it comes across to the index of the stream, in any order and some
of them more than once, and thins the index out when it grows too large. The index stays sorted, so
that it can be bisected. Where it is not thinned out it holds the last packet that was added for
each time stamp.

## Main definitions

* `ffAddIndexEntry` — an entry is added.
* `Represents` — the index as a map from time stamps.
* `ffAddIndexEntry_represents` — one addition.
* `ffReduceIndex` — the index is thinned out.
* `seek_applyAll` — any sequence of these, and the search after it.
* `addAll_represents` — what the index holds after additions.
-/

namespace AudioCrash.Seek

/-- `AV_NOPTS_VALUE`. -/
def noPts : ℤ := -2 ^ 63

/-- `AVERROR(EINVAL)`. -/
def einval : ℤ := -22

/-- `RELATIVE_TS_BASE`. -/
def relativeTsBase : ℤ := 2 ^ 63 - 1 - 2 ^ 48

/-- `is_relative`. -/
def isRelative (ts : ℤ) : Bool := relativeTsBase - 2 ^ 48 < ts

/-- `UINT_MAX / sizeof(AVIndexEntry)`. -/
def maxEntries : ℕ := (2 ^ 32 - 1) / 24

/-- The time stamp that an entry is stored with. -/
def storedTimestamp (timestamp : ℤ) : ℤ :=
  if isRelative timestamp then timestamp - relativeTsBase else timestamp

/-- The size that an entry is stored with, in a signed field of 30 bits. -/
def storedSize (size : ℤ) : ℤ := size.bmod (2 ^ 30)

/-- `ff_add_index_entry`: the value that it returns and the index, or none if the assertion
fails. -/
def ffAddIndexEntry (allocOk : Bool) (new : AVIndexEntry) (entries : List AVIndexEntry) :
    Option (ℤ × List AVIndexEntry) :=
  if maxEntries ≤ entries.length + 1 then some (-1, entries)
  else if new.timestamp = noPts then some (einval, entries)
  else if new.size < 0 ∨ 0x3FFFFFFF < new.size then some (einval, entries)
  else if !allocOk then some (-1, entries)
  else
    let timestamp := storedTimestamp new.timestamp
    let new := { new with timestamp := timestamp, size := storedSize new.size }
    let index := ffIndexSearchTimestamp entries timestamp false true
    if index < 0 then
      if entries.length = 0 ∨ (entryAt entries (entries.length - 1)).timestamp < timestamp then
        some (entries.length, entries ++ [new])
      else none
    else
      let ie := entryAt entries index
      if ie.timestamp ≠ timestamp then
        if ie.timestamp ≤ timestamp then some (-1, entries)
        else some (index, entries.take index.toNat ++ new :: entries.drop index.toNat)
      else
        -- do not reduce the distance
        let distance :=
          if ie.pos = new.pos ∧ new.minDistance < ie.minDistance then ie.minDistance
          else new.minDistance
        some (index, entries.take index.toNat ++
          { new with minDistance := distance } :: entries.drop (index.toNat + 1))

/-- The cases in which an entry is refused. -/
def Refused (allocOk : Bool) (new : AVIndexEntry) (entries : List AVIndexEntry) : Prop :=
  maxEntries ≤ entries.length + 1 ∨ new.timestamp = noPts ∨
    (new.size < 0 ∨ 0x3FFFFFFF < new.size) ∨ allocOk = false

/-! ## The index as a map -/

/-- What is stored for a time stamp. -/
def merge (old : Option AVIndexEntry) (new : AVIndexEntry) : AVIndexEntry :=
  match old with
  | none => new
  | some ie =>
    if ie.pos = new.pos ∧ new.minDistance < ie.minDistance then
      { new with minDistance := ie.minDistance }
    else new

/-- An addition to the map. -/
def insertEntry (new : AVIndexEntry) (map : ℤ → Option AVIndexEntry) : ℤ → Option AVIndexEntry :=
  Function.update map new.timestamp (some (merge (map new.timestamp) new))

/-- The index is sorted, and holds the entries of the map. -/
structure Represents (entries : List AVIndexEntry) (map : ℤ → Option AVIndexEntry) : Prop where
  sorted : Sorted entries
  mem_iff : ∀ e, e ∈ entries ↔ map e.timestamp = some e
  timestamp : ∀ t e, map t = some e → e.timestamp = t

theorem represents_nil : Represents [] fun _ => none :=
  ⟨List.Pairwise.nil, fun e => by simp, fun t e h => by cases h⟩

@[simp] theorem merge_timestamp (old : Option AVIndexEntry) (new : AVIndexEntry) :
    (merge old new).timestamp = new.timestamp := by
  cases old with
  | none => rfl
  | some ie =>
    rw [merge]
    split_ifs
    · rfl
    · rfl

section represents
variable {entries before after : List AVIndexEntry} {map : ℤ → Option AVIndexEntry}
  {new stored : AVIndexEntry}

/-- An entry stands between those before it and those after it. -/
theorem sorted_insert (h : Sorted (before ++ after))
    (hbefore : ∀ e ∈ before, e.timestamp < new.timestamp)
    (hafter : ∀ e ∈ after, new.timestamp < e.timestamp) : Sorted (before ++ new :: after) := by
  rw [Sorted, List.pairwise_append] at h ⊢
  refine ⟨h.1, List.pairwise_cons.2 ⟨hafter, h.2.1⟩, ?_⟩
  intro e he e' he'
  rcases List.mem_cons.1 he' with rfl | he'
  · exact hbefore e he
  · exact h.2.2 e he e' he'

/-- An entry is stored, in the place of one with its time stamp if there is one. -/
theorem Represents.store (h : Represents entries map) (hsorted : Sorted (before ++ after))
    (hbefore : ∀ e ∈ before, e.timestamp < stored.timestamp)
    (hafter : ∀ e ∈ after, stored.timestamp < e.timestamp)
    (hmem : ∀ e, e.timestamp ≠ stored.timestamp → (e ∈ entries ↔ e ∈ before ∨ e ∈ after)) :
    Represents (before ++ stored :: after)
      (Function.update map stored.timestamp (some stored)) := by
  refine ⟨sorted_insert hsorted hbefore hafter, fun e => ?_, fun t e he => ?_⟩
  · rw [List.mem_append, List.mem_cons]
    by_cases htime : e.timestamp = stored.timestamp
    · have hnotBefore : e ∉ before := fun he => absurd (hbefore e he) (by omega)
      have hnotAfter : e ∉ after := fun he => absurd (hafter e he) (by omega)
      rw [htime, Function.update_self]
      simp only [hnotBefore, hnotAfter, false_or, or_false, Option.some.injEq, eq_comm]
    · have hne : e ≠ stored := fun heq => htime (heq ▸ rfl)
      rw [Function.update_of_ne htime, ← h.mem_iff, hmem e htime]
      simp only [hne, false_or]
  · by_cases htime : t = stored.timestamp
    · rw [htime, Function.update_self, Option.some.injEq] at he
      rw [← he, htime]
    · rw [Function.update_of_ne htime] at he
      exact h.timestamp t e he

/-- What stands before the place of a time stamp in the index, and from there on. -/
theorem split_forward (h : Sorted entries) (wanted : ℤ) :
    let r := ffIndexSearchTimestamp entries wanted false true
    (r = -1 ∧ ∀ e ∈ entries, e.timestamp < wanted) ∨
      ∃ before ie after, entries = before ++ ie :: after ∧ r = before.length ∧
        entryAt entries r = ie ∧ wanted ≤ ie.timestamp ∧
        (∀ e ∈ before, e.timestamp < wanted) ∧ ∀ e ∈ after, ie.timestamp < e.timestamp := by
  rcases search_forward h wanted true with ⟨hr, hall⟩ | ⟨hlow, hhigh, _, hle, hbefore⟩
  · refine .inl ⟨hr, fun e he => ?_⟩
    rcases List.mem_iff_getElem.1 he with ⟨i, hi, rfl⟩
    have hi' := hall i (by omega) (by omega) (.inl rfl)
    rwa [entryAt_natCast hi] at hi'
  · generalize ffIndexSearchTimestamp entries wanted false true = r at *
    obtain ⟨k, rfl⟩ := Int.eq_ofNat_of_zero_le hlow
    have hk : k < entries.length := by omega
    refine .inr ⟨entries.take k, entries[k], entries.drop (k + 1), ?_, ?_, entryAt_natCast hk,
      ?_, ?_, ?_⟩
    · rw [List.getElem_cons_drop, List.take_append_drop]
    · rw [List.length_take, Nat.min_eq_left hk.le]
    · rwa [entryAt_natCast hk] at hle
    · intro e he
      rcases List.mem_take_iff_getElem.1 he with ⟨i, hi, rfl⟩
      have hi' := hbefore i (by omega) (by omega) (.inl rfl)
      rwa [entryAt_natCast (by omega)] at hi'
    · intro e he
      rcases List.mem_drop_iff_getElem.1 he with ⟨i, hi, rfl⟩
      exact List.pairwise_iff_getElem.1 h k (k + 1 + i) hk (by omega) (by omega)

/-- The entry as it is stored. -/
def storedEntry (new : AVIndexEntry) : AVIndexEntry :=
  { new with timestamp := storedTimestamp new.timestamp, size := storedSize new.size }

theorem ffAddIndexEntry_refused {allocOk : Bool} (h : Refused allocOk new entries) :
    ∃ code < 0, ffAddIndexEntry allocOk new entries = some (code, entries) := by
  rw [ffAddIndexEntry]
  split_ifs with hfull hpts hsize halloc
  · exact ⟨_, by decide, rfl⟩
  · exact ⟨_, by decide, rfl⟩
  · exact ⟨_, by decide, rfl⟩
  · exact ⟨_, by decide, rfl⟩
  all_goals
    rcases h with h | h | h | h
    · exact absurd h hfull
    · exact absurd h hpts
    · exact absurd h hsize
    · exact absurd h (by simpa using halloc)

theorem Represents.eq_none (h : Represents entries map) {wanted : ℤ}
    (hnot : ∀ e ∈ entries, e.timestamp ≠ wanted) : map wanted = none := by
  rw [Option.eq_none_iff_forall_ne_some]
  intro e he
  have htimestamp := h.timestamp wanted e he
  exact hnot e ((h.mem_iff e).2 (htimestamp.symm ▸ he)) htimestamp

/-- A time stamp that is not in the index. -/
theorem Represents.store_new (h : Represents (before ++ after) map)
    (hbefore : ∀ e ∈ before, e.timestamp < new.timestamp)
    (hafter : ∀ e ∈ after, new.timestamp < e.timestamp) :
    Represents (before ++ new :: after) (insertEntry new map) := by
  have hnone : map new.timestamp = none := by
    refine h.eq_none fun e he => ?_
    rcases List.mem_append.1 he with he | he
    · exact (hbefore e he).ne
    · exact (hafter e he).ne'
  rw [insertEntry, hnone]
  exact h.store h.sorted hbefore hafter fun e _ => List.mem_append

/-- A time stamp that is. -/
theorem Represents.store_again {ie : AVIndexEntry} (h : Represents (before ++ ie :: after) map)
    (htime : ie.timestamp = new.timestamp) (hbefore : ∀ e ∈ before, e.timestamp < new.timestamp)
    (hafter : ∀ e ∈ after, new.timestamp < e.timestamp) :
    Represents (before ++ merge (some ie) new :: after) (insertEntry new map) := by
  have hsome : map new.timestamp = some ie := by
    rw [← htime]
    exact (h.mem_iff ie).1 (List.mem_append_right _ List.mem_cons_self)
  have hsorted : Sorted (before ++ after) :=
    h.sorted.sublist ((List.sublist_cons_self ie after).append_left before)
  have hmem : ∀ e, e.timestamp ≠ (merge (some ie) new).timestamp →
      (e ∈ before ++ ie :: after ↔ e ∈ before ∨ e ∈ after) := by
    intro e he
    have hne : e ≠ ie := fun heq => he (by rw [heq, htime, merge_timestamp])
    simp [hne]
  have hstore := h.store hsorted (by simpa using hbefore) (by simpa using hafter) hmem
  rw [merge_timestamp] at hstore
  rwa [insertEntry, hsome]

/-- **An addition to the index is one to the map**, and the index of the entry is returned. The
assertion does not fail. -/
theorem ffAddIndexEntry_represents {allocOk : Bool} (h : Represents entries map)
    (haccept : ¬ Refused allocOk new entries) :
    ∃ index entries', ffAddIndexEntry allocOk new entries = some (index, entries') ∧ 0 ≤ index ∧
      Represents entries' (insertEntry (storedEntry new) map) := by
  simp only [Refused, not_or] at haccept
  rcases haccept with ⟨hfull, hpts, ⟨hsize, hsize'⟩, halloc⟩
  rw [ffAddIndexEntry, if_neg hfull, if_neg hpts, if_neg (by tauto), if_neg (by simpa using halloc)]
  dsimp only
  rcases split_forward h.sorted (storedTimestamp new.timestamp) with ⟨hr, hall⟩ |
    ⟨before, ie, after, rfl, hr, hentry, hle, hbefore, hafter⟩
  · have hassert : entries.length = 0 ∨
        (entryAt entries (entries.length - 1)).timestamp < storedTimestamp new.timestamp := by
      rcases Nat.eq_zero_or_pos entries.length with hzero | hpos
      · exact .inl hzero
      · have hlast : ((entries.length : ℤ) - 1) = ((entries.length - 1 : ℕ) : ℤ) := by omega
        rw [hlast, entryAt_natCast (by omega)]
        exact .inr (hall _ (List.getElem_mem _))
    rw [hr, if_pos (by decide), if_pos hassert]
    refine ⟨_, _, rfl, by omega, ?_⟩
    have hstore : Represents (entries ++ [storedEntry new]) (insertEntry (storedEntry new) map) :=
      Represents.store_new (by rwa [List.append_nil]) hall (by simp)
    exact hstore
  · rw [hentry, hr, if_neg (by omega), Int.toNat_natCast]
    by_cases htime : ie.timestamp = storedTimestamp new.timestamp
    · rw [if_neg (not_not.2 htime)]
      refine ⟨_, _, rfl, by omega, ?_⟩
      have hstore : Represents (before ++ merge (some ie) (storedEntry new) :: after)
          (insertEntry (storedEntry new) map) :=
        h.store_again htime hbefore fun e he => htime.symm.trans_lt (hafter e he)
      have hafter' : (before ++ ie :: after).drop (before.length + 1) = after := by
        rw [← List.drop_drop, List.drop_left]
        rfl
      rw [List.take_left, hafter']
      refine (congrArg (fun e => Represents (before ++ e :: after) _) ?_).mp hstore
      by_cases hdistance : ie.pos = new.pos ∧ new.minDistance < ie.minDistance
      · rw [if_pos hdistance]
        exact if_pos hdistance
      · rw [if_neg hdistance]
        exact if_neg hdistance
    · rw [if_pos htime, if_neg (by omega)]
      refine ⟨_, _, rfl, by omega, ?_⟩
      rw [List.take_left, List.drop_left]
      have hlater : ∀ e ∈ ie :: after, (storedEntry new).timestamp < e.timestamp := by
        intro e he
        rcases List.mem_cons.1 he with rfl | he
        · exact lt_of_le_of_ne hle (Ne.symm htime)
        · exact hle.trans_lt (hafter e he)
      exact h.store_new hbefore hlater

end represents

/-! ## Any sequence of calls -/

/-- The loop of `ff_reduce_index`, which keeps every second entry. -/
def everySecond : List AVIndexEntry → List AVIndexEntry
  | [] => []
  | [e] => [e]
  | e :: _ :: entries => e :: everySecond entries

/-- `ff_reduce_index`: an index of `most` entries or more is thinned out. -/
def ffReduceIndex (most : ℕ) (entries : List AVIndexEntry) : List AVIndexEntry :=
  if most ≤ entries.length then everySecond entries else entries

/-- What a demuxer does to the index: an entry is added, with the answer of the allocation, or the
index is reduced. -/
inductive IndexCall
  | add (allocOk : Bool) (new : AVIndexEntry)
  | reduce (most : ℕ)

/-- The index after a call. -/
def IndexCall.apply : IndexCall → List AVIndexEntry → Option (List AVIndexEntry)
  | .add allocOk new, entries => (ffAddIndexEntry allocOk new entries).map Prod.snd
  | .reduce most, entries => some (ffReduceIndex most entries)

/-- The index after calls. -/
def applyAll : List IndexCall → List AVIndexEntry → Option (List AVIndexEntry)
  | [], entries => some entries
  | call :: calls, entries => (call.apply entries).bind (applyAll calls)

/-- Additions only. -/
def addAll (adds : List (Bool × AVIndexEntry)) : List AVIndexEntry → Option (List AVIndexEntry) :=
  applyAll (adds.map fun add => .add add.1 add.2)

theorem everySecond_sublist (entries : List AVIndexEntry) :
    (everySecond entries).Sublist entries := by
  fun_induction everySecond entries with
  | case1 => exact List.Sublist.refl []
  | case2 e => exact List.Sublist.refl [e]
  | case3 e e' entries ih => exact (ih.cons e').cons_cons e

theorem ffReduceIndex_sublist (most : ℕ) (entries : List AVIndexEntry) :
    (ffReduceIndex most entries).Sublist entries := by
  rw [ffReduceIndex]
  split_ifs
  · exact everySecond_sublist entries
  · exact List.Sublist.refl entries

section applyAll
variable {entries : List AVIndexEntry} {map : ℤ → Option AVIndexEntry}

/-- A part of the index is one of the map. -/
theorem Represents.sublist {entries' : List AVIndexEntry} (h : Represents entries map)
    (hsub : entries'.Sublist entries) :
    Represents entries' fun t => (map t).filter fun e => decide (e ∈ entries') := by
  refine ⟨h.sorted.sublist hsub, fun e => ?_, fun t e he => ?_⟩
  · rw [Option.filter_eq_some_iff, decide_eq_true_eq, ← h.mem_iff]
    exact ⟨fun hmem => ⟨hsub.subset hmem, hmem⟩, fun hmem => hmem.2⟩
  · rw [Option.filter_eq_some_iff] at he
    exact h.timestamp t e he.1

/-- A call leaves an index of a map, be the entry refused or not. -/
theorem Represents.apply (h : Represents entries map) (call : IndexCall) :
    ∃ entries' map', call.apply entries = some entries' ∧ Represents entries' map' := by
  cases call with
  | add allocOk new =>
    by_cases hrefused : Refused allocOk new entries
    · rcases ffAddIndexEntry_refused hrefused with ⟨code, _, hadd⟩
      exact ⟨entries, map, by rw [IndexCall.apply, hadd]; rfl, h⟩
    · rcases ffAddIndexEntry_represents h hrefused with ⟨index, entries', hadd, _, h'⟩
      exact ⟨entries', _, by rw [IndexCall.apply, hadd]; rfl, h'⟩
  | reduce most => exact ⟨_, _, rfl, h.sublist (ffReduceIndex_sublist most entries)⟩

theorem Represents.applyAll (h : Represents entries map) (calls : List IndexCall) :
    ∃ entries' map', applyAll calls entries = some entries' ∧ Represents entries' map' := by
  induction calls generalizing entries map with
  | nil => exact ⟨entries, map, rfl, h⟩
  | cons call calls ih =>
    rcases h.apply call with ⟨entries', map', hcall, h'⟩
    rcases ih h' with ⟨entries'', map'', hrun, h''⟩
    refine ⟨entries'', map'', ?_, h''⟩
    rw [Seek.applyAll, hcall, Option.bind_some, hrun]

/-- **The index can be sought after any calls**, with entries in any order and some refused: the
assertion does not fail, and the search finds the packet that it is to find. -/
theorem seek_applyAll (calls : List IndexCall) :
    ∃ entries, Seek.applyAll calls [] = some entries ∧ Sorted entries ∧
      ∀ wanted any,
        LastUpTo entries any wanted (ffIndexSearchTimestamp entries wanted true any) ∧
          FirstFrom entries any wanted (ffIndexSearchTimestamp entries wanted false any) := by
  rcases represents_nil.applyAll calls with ⟨entries, map, hrun, h⟩
  refine ⟨entries, hrun, h.sorted, fun wanted any => ⟨?_, ?_⟩⟩
  · exact search_backward h.sorted wanted any
  · exact search_forward h.sorted wanted any

/-! ## What the index holds -/

/-- The entry is one that the index takes while there is room in it. -/
def Acceptable (add : Bool × AVIndexEntry) : Prop :=
  add.1 = true ∧ add.2.timestamp ≠ noPts ∧ 0 ≤ add.2.size ∧ add.2.size ≤ 0x3FFFFFFF

instance (add : Bool × AVIndexEntry) : Decidable (Acceptable add) :=
  inferInstanceAs (Decidable (_ ∧ _))

/-- An addition as one to the map. -/
def addEntry (map : ℤ → Option AVIndexEntry) (add : Bool × AVIndexEntry) :
    ℤ → Option AVIndexEntry :=
  if Acceptable add then insertEntry (storedEntry add.2) map else map

theorem refused_iff {add : Bool × AVIndexEntry} (hroom : entries.length + 1 < maxEntries) :
    Refused add.1 add.2 entries ↔ ¬ Acceptable add := by
  have hroom' : ¬ maxEntries ≤ entries.length + 1 := not_le.2 hroom
  rw [Refused, Acceptable]
  simp only [hroom', false_or, not_and_or, not_le, ne_eq, not_not, Bool.not_eq_true]
  tauto

theorem length_ffAddIndexEntry {allocOk : Bool} {new : AVIndexEntry} {code : ℤ}
    {entries' : List AVIndexEntry}
    (h : ffAddIndexEntry allocOk new entries = some (code, entries')) :
    entries'.length ≤ entries.length + 1 := by
  rw [ffAddIndexEntry] at h
  dsimp only at h
  split_ifs at h
  all_goals
    simp only [Option.some.injEq, Prod.mk.injEq] at h
    rw [← h.2]
    grind

theorem Represents.addEntry (h : Represents entries map) (hroom : entries.length + 1 < maxEntries)
    (add : Bool × AVIndexEntry) :
    ∃ code entries', ffAddIndexEntry add.1 add.2 entries = some (code, entries') ∧
      Represents entries' (addEntry map add) := by
  rw [Seek.addEntry]
  by_cases haccept : Acceptable add
  · rcases ffAddIndexEntry_represents h (mt (refused_iff hroom).1 (not_not.2 haccept)) with
      ⟨index, entries', hadd, _, h'⟩
    exact ⟨index, entries', hadd, by rwa [if_pos haccept]⟩
  · rcases ffAddIndexEntry_refused ((refused_iff hroom).2 haccept) with ⟨code, _, hadd⟩
    exact ⟨code, entries, hadd, by rwa [if_neg haccept]⟩

theorem Represents.addAll_eq (h : Represents entries map) {adds : List (Bool × AVIndexEntry)}
    (hroom : entries.length + adds.length < maxEntries) :
    ∃ entries', addAll adds entries = some entries' ∧
      Represents entries' (adds.foldl Seek.addEntry map) := by
  induction adds generalizing entries map with
  | nil => exact ⟨entries, rfl, h⟩
  | cons add adds ih =>
    rw [List.length_cons] at hroom
    rcases h.addEntry (by omega) add with ⟨code, entries', hadd, h'⟩
    have hlength := length_ffAddIndexEntry hadd
    rcases ih h' (by omega) with ⟨entries'', hrun, h''⟩
    refine ⟨entries'', ?_, h''⟩
    rw [addAll, List.map_cons, Seek.applyAll, IndexCall.apply, hadd, Option.map_some,
      Option.bind_some]
    exact hrun

/-- What the map holds is found by its time stamp. -/
theorem Represents.search (h : Represents entries map) {t : ℤ} {e : AVIndexEntry}
    (he : map t = some e) (backward : Bool) :
    0 ≤ ffIndexSearchTimestamp entries t backward true ∧
      entryAt entries (ffIndexSearchTimestamp entries t backward true) = e := by
  have htime := h.timestamp t e he
  rcases List.mem_iff_getElem.1 ((h.mem_iff e).2 (htime.symm ▸ he)) with ⟨i, hi, hentry⟩
  have hat : entryAt entries i = e := (entryAt_natCast hi).trans hentry
  have hsearch := search_eq h.sorted (i := i) (by omega) (by omega) backward
  rw [hat, htime] at hsearch
  rw [hsearch]
  exact ⟨by omega, hat⟩

/-- **The index holds what was added last for each time stamp**, as long as there is room in it,
and that is found by the time stamp. -/
theorem addAll_represents (adds : List (Bool × AVIndexEntry))
    (hroom : adds.length < maxEntries) :
    ∃ entries, addAll adds [] = some entries ∧
      Represents entries (adds.foldl Seek.addEntry fun _ => none) ∧
      ∀ t e, adds.foldl Seek.addEntry (fun _ => none) t = some e → ∀ backward,
        0 ≤ ffIndexSearchTimestamp entries t backward true ∧
          entryAt entries (ffIndexSearchTimestamp entries t backward true) = e := by
  have hroom' : ([] : List AVIndexEntry).length + adds.length < maxEntries := by simpa using hroom
  rcases represents_nil.addAll_eq hroom' with ⟨entries, hrun, h⟩
  exact ⟨entries, hrun, h, fun t e he backward => h.search he backward⟩

/-- A key frame at 40 that is added between two at 0 and 80, and once more with a shorter
distance. -/
def fourAdds : List (Bool × AVIndexEntry) :=
  [(true, ⟨0, 0, true, false, 10, 0⟩), (true, ⟨900, 80, true, false, 10, 2⟩),
    (true, ⟨500, 40, true, false, 10, 5⟩), (true, ⟨500, 40, false, false, 12, 3⟩)]

theorem addAll_represents_fourAdds :
    fourAdds.length < maxEntries ∧ ∃ entries, addAll fourAdds [] = some entries ∧
      ∀ backward, 0 ≤ ffIndexSearchTimestamp entries 40 backward true ∧
        entryAt entries (ffIndexSearchTimestamp entries 40 backward true) =
          ⟨500, 40, false, false, 12, 5⟩ := by
  have hroom : fourAdds.length < maxEntries := by decide
  rcases addAll_represents fourAdds hroom with ⟨entries, hrun, _, hfound⟩
  exact ⟨hroom, entries, hrun, fun backward => hfound 40 _ (by decide) backward⟩

end applyAll
end AudioCrash.Seek
