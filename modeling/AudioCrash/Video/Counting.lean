import AudioCrash.Video.Matching

/-!
# The counter and the flags

`have_write` counts the indices whose `need_write` is false, in every state at the head of one
of the loops and in the result (`Visited`), whatever FFmpeg answers. An iteration of a loop
over the indices calls `write` for its own index only, and only while the index is needed
(`Called`); all calls of `write` are made so.

## Main definitions

* `AtPacket`, `AtFrame`, `AtIndex`, `AtFallback` — the heads of the loops.
* `Iteration`, `Called` — an iteration of a loop over the indices, and its call of `write`.
* `Visited`, `Visited.induction` — the states of a run.
* `Counted`, `writes_once`.
-/

namespace AudioCrash.Video

/-! ## The states of a run -/

section points
variable (x : Context)

/-- The head of the loop over the packets, with the packets `es` left. -/
def AtPacket (es : List Event) (s : State) : Prop :=
  ∃ events, x.events = some events ∧
    Flow.Reaches (fun s => decide (s.haveWrite < x.tms.length)) (onPacket x) events State.init es s

/-- The head of the loop over the decoded frames of a packet. -/
def AtFrame (pts : ℤ) (frames : List Frame) (s : State) : Prop :=
  ∃ all es s₀, AtPacket x (.accepted pts all :: es) s₀ ∧ s₀.haveWrite < x.tms.length ∧
    Flow.Reaches (fun _ => true) (onFrame x pts) all (s₀.call .readFrame) frames s

/-- The decoded frame is received, and `ref_frame` refers to it, if it can. -/
def State.receive (s : State) : State :=
  { s with
    decode := some ⟨s.received, false⟩
    received := s.received + 1
    ref := x.reference s.received }

/-- The head of the loop over the indices for a decoded frame. -/
def AtIndex (pts : ℤ) (idxs : List ℕ) (q : Bool × State) : Prop :=
  ∃ f frames s₀, AtFrame x pts (f :: frames) s₀ ∧
    Flow.Reaches (fun _ => true) (tryIndex x pts) (List.range x.tms.length)
      (false, s₀.receive x) idxs q

/-- The head of the loop over the indices after the end of the stream. -/
def AtFallback (idxs : List ℕ) (s : State) : Prop :=
  ∃ s₀ s₁, AtPacket x [] s₀ ∧ s₀.haveWrite < x.tms.length ∧ filterFrame x s₀ = Flow.next s₁ ∧
    Flow.Reaches (fun _ => true) (fallbackIndex x) (List.range x.tms.length) s₁ idxs s

/-- An iteration of one of the loops over the indices. -/
inductive Iteration : State → State → Prop where
  | index {pts : ℤ} {idx : ℕ} {idxs : List ℕ} {process process' : Bool} {s s' : State} :
      AtIndex x pts (idx :: idxs) (process, s) →
      tryIndex x pts idx (process, s) = Flow.next (process', s') → Iteration s s'
  | fallback {idx : ℕ} {idxs : List ℕ} {s s' : State} : AtFallback x (idx :: idxs) s →
      fallbackIndex x idx s = Flow.next s' → Iteration s s'

/-- An iteration that starts in `s` makes the call `w` of `write`. -/
def Called (s : State) (w : Written) : Prop :=
  ∃ s', Iteration x s s' ∧ writes s'.log = writes s.log ++ [w]

/-- The states at the heads of the loops, and the one in which the run ends. -/
inductive Visited : State → Prop where
  | packet {es : List Event} {s : State} : AtPacket x es s → Visited s
  | frame {pts : ℤ} {frames : List Frame} {s : State} : AtFrame x pts frames s → Visited s
  | index {pts : ℤ} {idxs : List ℕ} {q : Bool × State} : AtIndex x pts idxs q → Visited q.2
  | fallback {idxs : List ℕ} {s : State} : AtFallback x idxs s → Visited s
  | result {r : ℤ × State} : run x = Flow.ret r → Visited r.2

end points

/-! ## What the statements do -/

/-- No call of `write` and no change of the counter and the flags. -/
structure Still (s s' : State) : Prop where
  writes : writes s'.log = writes s.log
  needWrite : s'.needWrite = s.needWrite
  haveWrite : s'.haveWrite = s.haveWrite

theorem Still.refl (s : State) : Still s s := ⟨rfl, rfl, rfl⟩

theorem Still.trans {s s' s'' : State} (h : Still s s') (h' : Still s' s'') : Still s s'' :=
  ⟨h'.writes.trans h.writes, h'.needWrite.trans h.needWrite, h'.haveWrite.trans h.haveWrite⟩

theorem SameWrites.still {s s' : State} (h : SameWrites s s') : Still s s' :=
  ⟨h.writes, h.needWrite, h.haveWrite⟩

section steps
variable {x : Context} {s s' : State}

theorem filterFrame_still (x : Context) (s : State) :
    Flow.Holds (Still s) (fun r => Still s r.2) (filterFrame x s) :=
  (filterFrame_filtered s).imp (fun _ hs => hs.same.still) fun _ hr => hr.same.still

/-- The index is written between `s` and `s'`, and was needed in `s`. -/
structure Wrote (x : Context) (idx : ℕ) (s s' : State) : Prop where
  needed : s.needWrite idx = true
  step : ∃ place s₁, Still s s₁ ∧ Still (writeIndex x place idx s₁) s'

/-- An iteration for a decoded frame writes its index, or nothing. -/
theorem tryIndex_wrote (pts : ℤ) (idx : ℕ) (process : Bool) (s : State) :
    Flow.Holds (fun q => Still s q.2 ∨ Wrote x idx s q.2) (fun r => Still s r.2)
      (tryIndex x pts idx (process, s)) := by
  simp only [tryIndex]
  by_cases hcond : (s.needWrite idx && x.due pts (x.tm idx)) = true
  · rw [if_pos hcond]
    have hneed : s.needWrite idx = true := (Bool.and_eq_true_iff.1 hcond).1
    refine Flow.Holds.bind (P := Still s) ?filters fun s₁ hs =>
      Or.inr ⟨hneed, ((s₁.received - 1 : ℕ) : WithTop ℕ), s₁, hs, ⟨rfl, rfl, rfl⟩⟩
    cases process with
    | true => exact Still.refl s
    | false => exact filterFrame_still x s
  · rw [if_neg hcond]
    exact Or.inl (Still.refl s)

/-- An iteration after the end of the stream writes its index, or nothing. -/
theorem fallbackIndex_wrote (idx : ℕ) (s : State) :
    Flow.Holds (fun s' => Still s s' ∨ Wrote x idx s s') (fun _ => False)
      (fallbackIndex x idx s) := by
  simp only [fallbackIndex]
  by_cases hneed : s.needWrite idx = true
  · rw [if_pos hneed]
    exact Or.inr ⟨hneed, ⊤, s, Still.refl s, Still.refl _⟩
  · rw [if_neg hneed]
    exact Or.inl (Still.refl s)

/-- An iteration writes an index of the loop, or nothing. -/
theorem Iteration.wrote (h : Iteration x s s') :
    Still s s' ∨ ∃ idx < x.tms.length, Wrote x idx s s' := by
  have hlt : ∀ {idx : ℕ} {idxs : List ℕ}, idx :: idxs <:+ List.range x.tms.length →
      idx < x.tms.length :=
    fun hsuffix => List.mem_range.1 (hsuffix.subset List.mem_cons_self)
  cases h with
  | @index pts idx idxs process process' _ _ hat hstep =>
    rcases hat with ⟨_, _, _, _, hreaches⟩
    have hwrote := tryIndex_wrote (x := x) pts idx process s
    rw [hstep, Flow.holds_next] at hwrote
    exact hwrote.imp id fun hw => ⟨idx, hlt hreaches.suffix, hw⟩
  | @fallback idx idxs _ _ hat hstep =>
    rcases hat with ⟨_, _, _, _, _, hreaches⟩
    have hwrote := fallbackIndex_wrote (x := x) idx s
    rw [hstep, Flow.holds_next] at hwrote
    exact hwrote.imp id fun hw => ⟨idx, hlt hreaches.suffix, hw⟩

end steps

/-! ## Induction over the states of a run -/

section induction
variable {x : Context} {P : State → Prop} (hinit : P State.init)
  (hstill : ∀ s s', P s → Still s s' → P s') (hiter : ∀ s s', P s → Iteration x s s' → P s')
include hstill hiter

theorem AtFrame.index_induction {pts : ℤ} {f : Frame} {frames : List Frame} {s₀ : State}
    (hat : AtFrame x pts (f :: frames) s₀) (h₀ : P s₀) {idxs : List ℕ} {q : Bool × State}
    (h : Flow.Reaches (fun _ => true) (tryIndex x pts) (List.range x.tms.length)
      (false, s₀.receive x) idxs q) : P q.2 := by
  induction h with
  | start => exact hstill s₀ _ h₀ ⟨rfl, rfl, rfl⟩
  | step hreaches _ hbody ih =>
    exact hiter _ _ ih (.index ⟨f, frames, s₀, hat, hreaches⟩ hbody)

theorem AtPacket.frame_induction {pts : ℤ} {all : List Frame} {es : List Event} {s₀ : State}
    (hat : AtPacket x (.accepted pts all :: es) s₀) (hlt : s₀.haveWrite < x.tms.length) (h₀ : P s₀)
    {frames : List Frame} {s : State}
    (h : Flow.Reaches (fun _ => true) (onFrame x pts) all (s₀.call .readFrame) frames s) :
    P s := by
  induction h with
  | start => exact hstill s₀ _ h₀ ⟨writes_readFrame _, rfl, rfl⟩
  | @step f frames s₁ s₂ hreaches _ hbody ih =>
    have hframe : AtFrame x pts (f :: frames) s₁ := ⟨all, es, s₀, hat, hlt, hreaches⟩
    rcases Flow.bind_eq_next_iff.1 hbody with ⟨q, hloop, hq⟩
    rw [Flow.next.injEq] at hq
    exact hq ▸ hframe.index_induction hstill hiter ih (Flow.reaches_of_forEach hloop)

include hinit

theorem AtPacket.induction {es : List Event} {s : State} (hat : AtPacket x es s) : P s := by
  rcases hat with ⟨events, hevents, hreaches⟩
  induction hreaches with
  | start => exact hinit
  | @step e es s₁ s₂ hreaches hcond hbody ih =>
    have hat : AtPacket x (e :: es) s₁ := ⟨events, hevents, hreaches⟩
    have hunref : ∀ s, P s → P (s.call .unref) :=
      fun s hs => hstill s _ hs ⟨writes_unref _, rfl, rfl⟩
    have hread : P (s₁.call .readFrame) := hstill s₁ _ ih ⟨writes_readFrame _, rfl, rfl⟩
    cases e with
    | other =>
      simp only [onPacket, Flow.next.injEq] at hbody
      exact hbody ▸ hunref _ hread
    | rejected pts => simp [onPacket] at hbody
    | accepted pts frames =>
      rcases Flow.bind_eq_next_iff.1 hbody with ⟨s₃, hloop, hs₃⟩
      rw [Flow.next.injEq] at hs₃
      exact hs₃ ▸ hunref _ (hat.frame_induction hstill hiter (of_decide_eq_true hcond) ih
        (Flow.reaches_of_forEach hloop))

theorem AtFrame.induction {pts : ℤ} {frames : List Frame} {s : State}
    (hat : AtFrame x pts frames s) : P s := by
  rcases hat with ⟨all, es, s₀, hpacket, hlt, hreaches⟩
  exact hpacket.frame_induction hstill hiter hlt (hpacket.induction hinit hstill hiter) hreaches

theorem AtIndex.induction {pts : ℤ} {idxs : List ℕ} {q : Bool × State}
    (hat : AtIndex x pts idxs q) : P q.2 := by
  rcases hat with ⟨f, frames, s₀, hframe, hreaches⟩
  exact hframe.index_induction hstill hiter (hframe.induction hinit hstill hiter) hreaches

theorem AtFallback.induction {idxs : List ℕ} {s : State} (hat : AtFallback x idxs s) : P s := by
  rcases hat with ⟨s₀, s₁, hpacket, hlt, hfilter, hreaches⟩
  have hs₁ : P s₁ := by
    have hs := filterFrame_still x s₀
    rw [hfilter, Flow.holds_next] at hs
    exact hstill s₀ s₁ (hpacket.induction hinit hstill hiter) hs
  induction hreaches with
  | start => exact hs₁
  | step hreaches _ hbody ih =>
    exact hiter _ _ ih (.fallback ⟨s₀, s₁, hpacket, hlt, hfilter, hreaches⟩ hbody)

/-- A run that is left within the loop over the packets. -/
theorem packet_ret_induction {e : Event} {es : List Event} {s : State} {r : ℤ × State}
    (hat : AtPacket x (e :: es) s) (hlt : s.haveWrite < x.tms.length)
    (h : onPacket x e s = Flow.ret r) : P r.2 := by
  have hread : P (s.call .readFrame) :=
    hstill s _ (hat.induction hinit hstill hiter) ⟨writes_readFrame _, rfl, rfl⟩
  cases e with
  | other => simp [onPacket] at h
  | rejected pts =>
    simp only [onPacket, Flow.ret.injEq] at h
    exact h ▸ hread
  | accepted pts frames =>
    have hframes := (Flow.bind_eq_ret_iff.1 h).resolve_right (by simp)
    rcases Flow.exists_reaches_of_forEach hframes with ⟨f, rest, s₁, hreaches, hbody⟩
    have hframe : AtFrame x pts (f :: rest) s₁ := ⟨frames, es, s, hat, hlt, hreaches⟩
    have hidxs := (Flow.bind_eq_ret_iff.1 hbody).resolve_right (by simp)
    rcases Flow.exists_reaches_of_forEach hidxs with ⟨idx, idxs, ⟨process, s₂⟩, hidx, htry⟩
    have hat' : AtIndex x pts (idx :: idxs) (process, s₂) := ⟨f, rest, s₁, hframe, hidx⟩
    have hstep := tryIndex_wrote (x := x) pts idx process s₂
    rw [htry, Flow.holds_ret] at hstep
    exact hstill s₂ _ (hat'.induction hinit hstill hiter) hstep

/-- The statements after the loop over the packets. -/
theorem fallback_induction {s : State} (hat : AtPacket x [] s) (hlt : s.haveWrite < x.tms.length) :
    Flow.Holds P (fun r => P r.2) (fallback x s) := by
  have hs := hat.induction hinit hstill hiter
  have hfilters := filterFrame_still x s
  simp only [fallback]
  cases hfilter : filterFrame x s with
  | hang => trivial
  | ret r =>
    rw [hfilter, Flow.holds_ret] at hfilters
    exact hstill s _ hs hfilters
  | next s₁ =>
    rw [Flow.bind_next]
    cases hidxs : Flow.forEach (fallbackIndex x) (List.range x.tms.length) s₁ with
    | hang => trivial
    | next s₂ =>
      have hat' : AtFallback x [] s₂ :=
        ⟨s, s₁, hat, hlt, hfilter, Flow.reaches_of_forEach hidxs⟩
      exact hstill s₂ _ (hat'.induction hinit hstill hiter) ⟨rfl, rfl, rfl⟩
    | ret r =>
      rcases Flow.exists_reaches_of_forEach hidxs with ⟨idx, idxs, s₂, _, hbody⟩
      have hstep := fallbackIndex_wrote (x := x) idx s₂
      rw [hbody, Flow.holds_ret] at hstep
      exact hstep.elim

theorem result_induction {r : ℤ × State} (hr : run x = Flow.ret r) : P r.2 := by
  cases hevents : x.events with
  | none =>
    simp only [run, hevents, Flow.ret.injEq] at hr
    exact hr ▸ hinit
  | some events =>
    simp only [run, hevents] at hr
    rcases Flow.bind_eq_ret_iff.1 hr with hloop | ⟨s, hloop, hrest⟩
    · rcases Flow.Reaches.start.of_ret hloop with ⟨e, es, s, hreaches, hcond, hbody⟩
      exact packet_ret_induction hinit hstill hiter ⟨events, hevents, hreaches⟩
        (of_decide_eq_true hcond) hbody
    · rcases Flow.Reaches.start.of_next hloop with ⟨rest, hreaches, hend⟩
      have hat : AtPacket x rest s := ⟨events, hevents, hreaches⟩
      have hend' : Flow.Holds P (fun r => P r.2)
          (if s.haveWrite < x.tms.length then fallback x s else Flow.next s) := by
        by_cases hlt : s.haveWrite < x.tms.length
        · rw [if_pos hlt]
          have hnil : rest = [] := hend.resolve_right fun hc => of_decide_eq_false hc hlt
          exact fallback_induction hinit hstill hiter (hnil ▸ hat) hlt
        · rw [if_neg hlt]
          exact hat.induction hinit hstill hiter
      have hresult : Flow.Holds (fun _ : State => False) (fun r => P r.2)
          (Flow.ret r : Step State) := by
        rw [← hrest]
        exact Flow.Holds.bind hend' fun s hs => hstill s _ hs ⟨rfl, rfl, rfl⟩
      exact hresult

/-- **Induction over the states of a run.** -/
theorem Visited.induction {s : State} (h : Visited x s) : P s := by
  cases h with
  | packet hat => exact hat.induction hinit hstill hiter
  | frame hat => exact hat.induction hinit hstill hiter
  | index hat => exact hat.induction hinit hstill hiter
  | fallback hat => exact hat.induction hinit hstill hiter
  | result hr => exact result_induction hinit hstill hiter hr

end induction

/-! ## The counter, the flags and the calls -/

section counted
variable {x : Context} {s s' : State}

/-- `have_write` is the number of indices whose `need_write` is false, and these are the
indices that `write` has been called for, each once. -/
structure Counted (x : Context) (s : State) : Prop where
  count : s.haveWrite =
    ((Finset.range x.tms.length).filter fun idx => s.needWrite idx = false).card
  written : ∀ idx < x.tms.length, s.needWrite idx = false ↔ idx ∈ (writes s.log).map (·.idx)
  lt : ∀ idx ∈ (writes s.log).map (·.idx), idx < x.tms.length
  nodup : ((writes s.log).map (·.idx)).Nodup

theorem Served.counted {e : ℕ → Option Entry} (h : Served x e s) : Counted x s := by
  have hflag : ∀ idx < x.tms.length, s.needWrite idx = false ↔ (e idx).isSome = true := by
    intro idx hidx
    rw [h.needWrite idx hidx]
    cases e idx <;> simp
  refine ⟨?count, ?written, ?lt, h.nodup⟩
  case count =>
    rw [h.haveWrite]
    refine congrArg Finset.card (Finset.filter_congr ?_)
    intro idx hidx
    exact (hflag idx (Finset.mem_range.1 hidx)).symm
  case written =>
    intro idx hidx
    rw [hflag idx hidx, Option.isSome_iff_exists]
    constructor
    · intro hex
      rcases hex with ⟨c, hc⟩
      rcases h.all idx hidx c hc with ⟨w, hw, hwidx⟩
      exact hwidx ▸ List.mem_map_of_mem hw
    · intro hmem
      rcases List.mem_map.1 hmem with ⟨w, hw, rfl⟩
      exact ⟨_, (h.mem w hw).2.1⟩
  case lt =>
    intro idx hmem
    rcases List.mem_map.1 hmem with ⟨w, hw, rfl⟩
    exact (h.mem w hw).1

theorem Still.served {e : ℕ → Option Entry} (hs : Still s s') (h : Served x e s) :
    Served x e s' := h.of_eq hs.writes hs.needWrite hs.haveWrite

theorem Wrote.served {idx : ℕ} (hs : Wrote x idx s s') (hidx : idx < x.tms.length)
    (h : ∃ e, Served x e s) : ∃ e, Served x e s' := by
  rcases h with ⟨e, h⟩
  rcases hs.step with ⟨place, s₁, hbefore, hafter⟩
  have hnone : e idx = none := by
    have hneed := h.needWrite idx hidx
    rw [hs.needed] at hneed
    exact Option.isNone_iff_eq_none.1 hneed.symm
  exact ⟨_, hafter.served ((hbefore.served h).write hidx hnone place)⟩

theorem Visited.served (h : Visited x s) : ∃ e, Served x e s := by
  refine h.induction (P := fun s => ∃ e, Served x e s) ⟨_, Served.init⟩ ?_ ?_
  · intro s s' hs hstill
    rcases hs with ⟨e, hs⟩
    exact ⟨e, hstill.served hs⟩
  · intro s s' hs hiter
    rcases hiter.wrote with hstill | ⟨idx, hidx, hwrote⟩
    · rcases hs with ⟨e, hs⟩
      exact ⟨e, hstill.served hs⟩
    · exact hwrote.served hidx hs

/-- The call that an iteration makes. -/
theorem Wrote.writes {idx : ℕ} (h : Wrote x idx s s') :
    ∃ w : Written, w.idx = idx ∧ writes s'.log = writes s.log ++ [w] := by
  rcases h.step with ⟨place, s₁, hbefore, hafter⟩
  refine ⟨⟨idx, place, s₁.encodeFrame, write (x.ffmpeg.writeOk s₁.log) s₁.encodeFrame⟩, rfl,
    ?_⟩
  rw [hafter.writes, ← hbefore.writes]
  exact writes_write _ _

theorem Iteration.visited (h : Iteration x s s') : Visited x s := by
  cases h with
  | index hat => exact .index hat
  | fallback hat => exact .fallback hat

/-- `write` is called for an index that is still needed. -/
theorem Called.needed {w : Written} (h : Called x s w) :
    w.idx < x.tms.length ∧ s.needWrite w.idx = true := by
  rcases h with ⟨s', hiter, hw⟩
  rcases hiter.wrote with hstill | ⟨idx, hidx, hwrote⟩
  · rw [hstill.writes] at hw
    exact absurd hw.symm (by simp)
  · rcases hwrote.writes with ⟨w', hw', hwrites⟩
    rw [hw] at hwrites
    have heq : w = w' := by simpa using hwrites
    rw [heq, hw']
    exact ⟨hidx, hwrote.needed⟩

/-- All calls of `write` are made by the iterations. -/
theorem Visited.called (h : Visited x s) : ∀ w ∈ writes s.log, ∃ s₀, Called x s₀ w := by
  refine h.induction (P := fun s => ∀ w ∈ writes s.log, ∃ s₀, Called x s₀ w) ?_ ?_ ?_
  · simp [State.init]
  · intro s s' hs hstill
    rw [hstill.writes]
    exact hs
  · intro s s' hs hiter
    rcases hiter.wrote with hstill | ⟨idx, _, hwrote⟩
    · rw [hstill.writes]
      exact hs
    · rcases hwrote.writes with ⟨w', _, hwrites⟩
      intro w hw
      rw [hwrites, List.mem_append, List.mem_singleton] at hw
      rcases hw with hw | rfl
      · exact hs w hw
      · exact ⟨s, s', hiter, hwrites⟩

/-- A run that returns 0 has an entry for every index. -/
theorem Outcome.all_written {r : ℤ × State} (h : Outcome x r) (hcode : r.1 = 0) :
    ∀ idx < x.tms.length, idx ∈ (writes r.2.log).map (·.idx) := by
  intro idx hidx
  have hmem : ∀ {e : ℕ → Option Entry} {c : Entry}, Served x e r.2 → e idx = some c →
      idx ∈ (writes r.2.log).map (·.idx) := by
    intro e c hserved hc
    rcases hserved.all idx hidx c hc with ⟨w, hw, hwidx⟩
    exact hwidx ▸ List.mem_map_of_mem hw
  cases h with
  | left _ _ _ _ hne => exact absurd hcode hne
  | reached ps _ hserved _ _ _ every =>
    rcases Option.ne_none_iff_exists'.1 (every idx hidx) with ⟨n, hn⟩
    exact hmem hserved (x.loopEntry_of_some hn)
  | fell hserved => exact hmem hserved rfl

end counted

/-- **The counter counts, and every index is written once**: in every state of a run
`have_write` is the number of indices whose `need_write` is false; `write` is called only for
an index that is still needed, and has not been called for it before; and a run that returns 0
has called it once for every index, whatever FFmpeg answers. -/
theorem writes_once (x : Context) :
    (∀ s, Visited x s → Counted x s) ∧
    (∀ s w, Called x s w → w.idx < x.tms.length ∧ s.needWrite w.idx = true ∧
      w.idx ∉ (writes s.log).map (·.idx)) ∧
    ∀ r, run x = Flow.ret r → (∀ w ∈ writes r.2.log, ∃ s, Called x s w) ∧
      (r.1 = 0 → ((writes r.2.log).map (·.idx)).Perm (List.range x.tms.length) ∧
        r.2.haveWrite = x.tms.length) := by
  have hcounted : ∀ s, Visited x s → Counted x s := by
    intro s hs
    rcases hs.served with ⟨e, hserved⟩
    exact hserved.counted
  refine ⟨hcounted, ?called, ?result⟩
  case called =>
    intro s w hw
    have hneeded := hw.needed
    refine ⟨hneeded.1, hneeded.2, ?_⟩
    rcases hw with ⟨s', hiter, _⟩
    rw [← (hcounted s hiter.visited).written _ hneeded.1, hneeded.2]
    exact Bool.noConfusion
  case result =>
    intro r hr
    have hvisited := Visited.result hr
    refine ⟨hvisited.called, ?_⟩
    intro hcode
    have hr' := hcounted r.2 hvisited
    have hall := (outcome_of_run x hr).all_written hcode
    constructor
    · rw [List.perm_ext_iff_of_nodup hr'.nodup List.nodup_range]
      intro idx
      rw [List.mem_range]
      exact ⟨hr'.lt idx, hall idx⟩
    · rw [hr'.count, Finset.filter_true_of_mem, Finset.card_range]
      intro idx hidx
      have hidx := Finset.mem_range.1 hidx
      exact (hr'.written idx hidx).2 (hall idx hidx)

end AudioCrash.Video
