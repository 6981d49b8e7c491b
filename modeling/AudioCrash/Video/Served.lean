import AudioCrash.Video.Thumbnail
import Mathlib.Data.Finset.Card
import Mathlib.Data.List.Nodup

/-!
# The writes of a run

A table `e` says for each index whether it has been written, for which decoded frame and
from which content of `encode_frame`. `Served` says that the writes made are those of the
table, one for each index that has an entry, and that `need_write` and `have_write` agree
with it. A write of an index that has no entry extends the table.

## Main definitions

* `writes` — the writes among the calls.
* `Served`, `Served.write`, `Served.haveWrite_lt_iff`.
-/

namespace AudioCrash.Video

/-! ## The writes of a run -/

/-- The writes among the calls. -/
def writes (log : List Call) : List Written :=
  log.filterMap fun
    | .write w => some w
    | _ => none

@[simp] theorem writes_nil : writes [] = [] := rfl
@[simp] theorem writes_write (log : List Call) (w : Written) :
    writes (log ++ [.write w]) = writes log ++ [w] := by simp [writes]
@[simp] theorem writes_readFrame (log : List Call) :
    writes (log ++ [.readFrame]) = writes log := by simp [writes]
@[simp] theorem writes_unref (log : List Call) :
    writes (log ++ [.unref]) = writes log := by simp [writes]
@[simp] theorem writes_addFrame (log : List Call) :
    writes (log ++ [.addFrame]) = writes log := by simp [writes]
@[simp] theorem writes_getFrame (log : List Call) :
    writes (log ++ [.getFrame]) = writes log := by simp [writes]

/-- What an index has been written with: the place, and what the frame held. -/
abbrev Entry := WithTop ℕ × Slot

/-- The calls of the writer are those of the table `e`, one for each index that has an entry,
and the variables of the loops agree with it. -/
structure Served (x : Context) (e : ℕ → Option Entry) (s : State) : Prop where
  mem : ∀ w ∈ writes s.log, w.idx < x.tms.length ∧ e w.idx = some (w.place, w.picture) ∧
    ∃ log, w.code = write (x.ffmpeg.writeOk log) w.picture
  all : ∀ idx < x.tms.length, ∀ c, e idx = some c → ∃ w ∈ writes s.log, w.idx = idx
  nodup : ((writes s.log).map (·.idx)).Nodup
  needWrite : ∀ idx < x.tms.length, s.needWrite idx = (e idx).isNone
  haveWrite : s.haveWrite =
    ((Finset.range x.tms.length).filter fun idx => (e idx).isSome).card

/-- Steps that do not write. -/
structure SameWrites (s s' : State) : Prop where
  writes : writes s'.log = writes s.log
  needWrite : s'.needWrite = s.needWrite
  haveWrite : s'.haveWrite = s.haveWrite
  received : s'.received = s.received

section served
variable {x : Context} {e e' : ℕ → Option Entry} {s s' : State}

theorem Served.init : Served x (fun _ => none) State.init := by
  constructor <;> simp [State.init]

theorem Served.of_eq (h : Served x e s) (hwrites : writes s'.log = writes s.log)
    (hneed : s'.needWrite = s.needWrite) (hhave : s'.haveWrite = s.haveWrite) :
    Served x e s' where
  mem := by
    rw [hwrites]
    exact h.mem
  all := by
    rw [hwrites]
    exact h.all
  nodup := by
    rw [hwrites]
    exact h.nodup
  needWrite := by
    rw [hneed]
    exact h.needWrite
  haveWrite := hhave.trans h.haveWrite

theorem Served.same (h : Served x e s) (hs : SameWrites s s') : Served x e s' :=
  h.of_eq hs.writes hs.needWrite hs.haveWrite

theorem Served.congr (h : Served x e s) (he : ∀ idx < x.tms.length, e' idx = e idx) :
    Served x e' s where
  mem := by
    intro w hw
    rcases h.mem w hw with ⟨hidx, hentry, hcode⟩
    exact ⟨hidx, (he w.idx hidx).trans hentry, hcode⟩
  all := by
    intro idx hidx c hc
    exact h.all idx hidx c ((he idx hidx).symm.trans hc)
  nodup := h.nodup
  needWrite := by
    intro idx hidx
    rw [he idx hidx]
    exact h.needWrite idx hidx
  haveWrite := by
    rw [h.haveWrite]
    refine congrArg Finset.card (Finset.filter_congr ?_)
    intro idx hidx
    rw [he idx (Finset.mem_range.1 hidx)]

/-- An index without an entry is not among the writes. -/
theorem Served.notMem (h : Served x e s) {idx : ℕ} (hnone : e idx = none) :
    idx ∉ (writes s.log).map (·.idx) := by
  intro hmem
  rcases List.mem_map.1 hmem with ⟨w, hw, rfl⟩
  rw [(h.mem w hw).2.1] at hnone
  exact Option.some_ne_none _ hnone

/-- One entry more is one index more with an entry. -/
theorem card_update {n idx : ℕ} (hidx : idx < n) (hnone : e idx = none) (c : Entry) :
    ((Finset.range n).filter fun i => (Function.update e idx (some c) i).isSome).card =
      ((Finset.range n).filter fun i => (e i).isSome).card + 1 := by
  have hset : ((Finset.range n).filter fun i => (Function.update e idx (some c) i).isSome) =
      insert idx ((Finset.range n).filter fun i => (e i).isSome) := by
    ext i
    by_cases heq : i = idx
    · simp [heq, hidx]
    · simp [heq]
  rw [hset, Finset.card_insert_of_notMem (by simp [hnone])]

/-- **One write.** -/
theorem Served.write (h : Served x e s) {idx : ℕ} (hidx : idx < x.tms.length)
    (hnone : e idx = none) (place : WithTop ℕ) :
    Served x (Function.update e idx (some (place, s.encodeFrame)))
      (writeIndex x place idx s) := by
  refine ⟨?mem, ?all, ?nodup, ?needWrite, ?haveWrite⟩
  case mem =>
    intro w hw
    simp only [writeIndex, State.call_log, writes_write, List.mem_append,
      List.mem_singleton] at hw
    rcases hw with hw | rfl
    · have hne : w.idx ≠ idx := by
        intro heq
        exact h.notMem hnone (heq ▸ List.mem_map_of_mem hw)
      rw [Function.update_of_ne hne]
      exact h.mem w hw
    · exact ⟨hidx, by simp, s.log, rfl⟩
  case all =>
    intro i hi c hc
    simp only [writeIndex, State.call_log, writes_write]
    by_cases heq : i = idx
    · exact ⟨_, List.mem_append_right _ (List.mem_singleton_self _), heq.symm⟩
    · rw [Function.update_of_ne heq] at hc
      rcases h.all i hi c hc with ⟨w, hw, hwi⟩
      exact ⟨w, List.mem_append_left _ hw, hwi⟩
  case nodup =>
    simp only [writeIndex, State.call_log, writes_write, List.map_append, List.map_singleton]
    refine List.Nodup.append h.nodup (List.nodup_singleton _) ?_
    rw [List.disjoint_singleton]
    exact h.notMem hnone
  case needWrite =>
    intro i hi
    simp only [writeIndex, State.call_needWrite]
    by_cases heq : i = idx
    · simp [heq]
    · rw [Function.update_of_ne heq, Function.update_of_ne heq]
      exact h.needWrite i hi
  case haveWrite =>
    rw [card_update hidx hnone, ← h.haveWrite]
    rfl

/-- The loops go on while an index has no entry. -/
theorem Served.haveWrite_lt_iff (h : Served x e s) :
    s.haveWrite < x.tms.length ↔ ∃ idx < x.tms.length, e idx = none := by
  rw [h.haveWrite]
  constructor
  · intro hlt
    by_contra hall
    push Not at hall
    have hfull : ((Finset.range x.tms.length).filter fun idx => (e idx).isSome) =
        Finset.range x.tms.length := by
      refine Finset.filter_true_of_mem ?_
      intro idx hidx
      exact Option.isSome_iff_ne_none.2 (hall idx (Finset.mem_range.1 hidx))
    rw [hfull, Finset.card_range] at hlt
    exact lt_irrefl _ hlt
  · intro hex
    rcases hex with ⟨idx, hidx, hnone⟩
    have hsub : ((Finset.range x.tms.length).filter fun i => (e i).isSome) ⊂
        Finset.range x.tms.length := by
      refine (Finset.filter_subset _ _).ssubset_of_ne ?_
      intro heq
      have hmem : idx ∈ (Finset.range x.tms.length).filter fun i => (e i).isSome := by
        rw [heq]
        exact Finset.mem_range.2 hidx
      simp [hnone] at hmem
    have hcard := Finset.card_lt_card hsub
    rwa [Finset.card_range] at hcard

end served
end AudioCrash.Video
