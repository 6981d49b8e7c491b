import AudioCrash.Video.Status

/-!
# The packets of a video

`VideoThubmnail::run` releases a packet at the end of an iteration of the packet loop. A packet
that the decoder rejects, and a filter that fails, leave the function from inside of the loop,
with the packet held; so does a frame that `av_frame_ref` has failed for, when it is to go
through the filters. After the loop a failing filter leaves nothing behind.

## Main definitions

* `PacketsReleased` — every packet is released once.
* `Context.ReadsThrough` — when a run gets through the packet loop.
* `runAll_released_iff`.
-/

namespace AudioCrash.Video

open Trace

/-- What a call does with the packet. -/
def Call.effect : Call → Effect
  | .readFrame => .acquire
  | .unref => .release
  | _ => .none

/-- Every packet that `av_read_frame` delivers is released by `av_packet_unref` exactly once,
before the next `av_read_frame` or before the return. -/
def PacketsReleased (log : List Call) : Prop := ReleasedOnce Call.effect log

namespace Context
variable (x : Context)

/-- The decoder rejects no packet, or only after the packets that reach all times. -/
def RejectsLate (es : List Event) : Prop :=
  NoneRejected es ∨ ∀ idx < x.tms.length, x.firstDue (Video.framePts es) idx ≠ none

/-- Unless the seek fails, no packet is rejected before all times are reached, the frames that
are to go through the filters have been referred to, and FFmpeg answers with success to all the
filter calls that the packet loop makes when none fails. -/
def ReadsThrough : Prop :=
  ∀ es, x.events = some es → x.RejectsLate es ∧ x.Referred (Video.framePts es) ∧
    ∀ s, x.willing.loop es = Flow.next s → Answered x.ffmpeg.answer s.log

end Context

/-! ## The calls that do not concern the packet -/

section logHolds
variable {x : Context} {s : State} {I : List Call → Prop}
  (hI : ∀ {log c}, I log → c.effect = .none → I (log ++ [c]))
include hI

theorem filterFrame_logHolds (h : I s.log) :
    Flow.Holds (fun s : State => I s.log) (fun r => I r.2.log) (filterFrame x s) := by
  simp only [filterFrame]
  by_cases hresize : x.needResize = true
  · rw [if_pos hresize]
    cases s.ref with
    | none => exact h
    | some picture =>
      dsimp only
      split_ifs
      · exact h
      · exact hI h rfl
      · exact hI (hI h rfl) rfl
  · rw [if_neg hresize]
    exact h

theorem onFrame_logHolds (pts : ℤ) (f : Frame) (h : I s.log) :
    Flow.Holds (fun s : State => I s.log) (fun r => I r.2.log) (onFrame x pts f s) := by
  refine Flow.Holds.bind (P := fun q : Bool × State => I q.2.log)
    (Flow.holds_forEach_const _ h fun idx q hq => ?_) fun q hq => hq
  rcases q with ⟨process, s⟩
  simp only [tryIndex]
  split_ifs
  · exact (filterFrame_logHolds hI hq).bind fun s hs => hI hs rfl
  · exact hI hq rfl
  · exact hq

theorem fallback_logHolds (h : I s.log) :
    Flow.Holds (fun s : State => I s.log) (fun r => I r.2.log) (fallback x s) := by
  refine (filterFrame_logHolds hI h).bind fun s hs => ?_
  refine Flow.Holds.bind (P := fun s : State => I s.log)
    (Flow.holds_forEach_const _ hs fun idx s hs => ?_) fun s hs => hs
  simp only [fallbackIndex]
  split_ifs
  · exact hI hs rfl
  · exact hs

end logHolds

/-! ## One packet, and the packet loop -/

section released
variable {x : Context} {s : State} {r : ℤ × State} {es : List Event}

/-- **One packet**: it is released when the iteration comes to its end, and held when the
function is left. -/
theorem onPacket_released (e : Event) (h : PacketsReleased s.log) :
    Flow.Holds (fun s => PacketsReleased s.log) (fun r => ¬ PacketsReleased r.2.log)
      (onPacket x e s) := by
  have hread : Held Call.effect (s.call .readFrame).log := h.acquire rfl
  cases e with
  | other => exact hread.release rfl
  | rejected pts => exact hread.not_releasedOnce
  | accepted pts frames =>
    have hframes : Flow.Holds (fun s : State => Held Call.effect s.log)
        (fun r => Held Call.effect r.2.log)
        (Flow.forEach (onFrame x pts) frames (s.call .readFrame)) :=
      Flow.holds_forEach_const _ hread fun f s hs => onFrame_logHolds Held.concat pts f hs
    refine Flow.Holds.bind (hframes.imp_ret fun _ hr => hr.not_releasedOnce) fun s hs => ?_
    exact hs.release rfl

theorem loop_released (es : List Event) :
    Flow.Holds (fun s => PacketsReleased s.log) (fun r => ¬ PacketsReleased r.2.log)
      (x.loop es) := by
  refine (Flow.holds_forEachWhile (Q := fun r : ℤ × State => ¬ PacketsReleased r.2.log)
    (fun _ (s : State) => PacketsReleased s.log) es (d := []) (a := State.init) releasedOnce_nil
    fun _ e _ _ _ _ hs => onPacket_released e hs).imp_next fun s hs => ?_
  rcases hs with ⟨_, _, _, hs, _⟩
  exact hs

/-- After the packet loop no packet is held. -/
theorem rest_released (h : PacketsReleased s.log) :
    Flow.Holds (fun _ : State => True) (fun r => PacketsReleased r.2.log)
      ((if s.haveWrite < x.tms.length then fallback x s else Flow.next s).bind fun s =>
        Flow.ret (0, { s with ref := none })) := by
  refine Flow.Holds.bind (P := fun s : State => PacketsReleased s.log) ?_ fun s hs => hs
  split_ifs
  · exact fallback_logHolds ReleasedOnce.concat h
  · exact h

/-- A run has released every packet exactly when it gets through the packet loop. -/
theorem released_iff_next (hes : x.events = some es) (hr : run x = Flow.ret r) :
    PacketsReleased r.2.log ↔ ∃ s', x.loop es = Flow.next s' := by
  simp only [run, hes] at hr
  exact (loop_released es).iff_exists_next (fun _ hs => rest_released hs) hr

end released

/-! ## The loop that is not left -/

section between
variable {x : Context} {es done rest : List Event} {s : State}

/-- A packet rejected while a time is not reached. -/
theorem Between.not_rejectsLate {pts : ℤ} (h : Between x done s)
    (hsplit : es = done ++ .rejected pts :: rest) (hlt : s.haveWrite < x.tms.length) :
    ¬ x.RejectsLate es := by
  intro hlate
  rcases hlate with hnone | hall
  · exact hnone (.rejected pts) (by simp [hsplit]) pts rfl
  · rcases h.2.pending hlt with ⟨idx, hidx, hdue⟩
    refine hall idx hidx ?_
    rw [hsplit, framePts_append h.1, framePts_rejected, List.append_nil]
    exact hdue

/-- The loop has come to its end: after the last packet, or with all times reached. -/
theorem Between.eq_or_every (h : Between x done s) (hsplit : es = done ++ rest)
    (hend : rest = [] ∨ decide (s.haveWrite < x.tms.length) = false) :
    done = es ∨ framePts done <+: framePts es ∧
      ∀ idx < x.tms.length, x.firstDue (framePts done) idx ≠ none := by
  rcases hend with rfl | hend
  · exact Or.inl ((List.append_nil done).symm.trans hsplit.symm)
  · refine Or.inr ⟨?_, fun idx hidx hnone => of_decide_eq_false hend ?_⟩
    · rw [hsplit, framePts_append h.1]
      exact List.prefix_append _ _
    · exact h.2.served.haveWrite_lt_iff.2 ⟨idx, hidx, x.loopEntry_of_none hnone⟩

/-- A loop that has come to its end has rejected no packet too early, and has referred to the
frames that it has filtered. -/
theorem Between.atEnd (h : Between x done s) (hsplit : es = done ++ rest)
    (hend : rest = [] ∨ decide (s.haveWrite < x.tms.length) = false) :
    x.RejectsLate es ∧ x.Referred (framePts es) := by
  rcases h.eq_or_every hsplit hend with rfl | ⟨hpre, hevery⟩
  · exact ⟨Or.inl h.1, h.2.referred⟩
  · refine ⟨Or.inr fun idx hidx => ?_, h.2.referred.of_isPrefix x hpre hevery⟩
    rcases Option.ne_none_iff_exists'.1 (hevery idx hidx) with ⟨n, hn⟩
    rw [x.firstDue_of_isPrefix hpre hn]
    exact Option.some_ne_none n

/-- With filters that do not fail, the run is left at a frame only where `av_frame_ref` has
failed. -/
theorem Stops.not_referred {r : ℤ × State} (h : Stops x r) (hf : x.ffmpeg.Filters)
    (hes : x.events = some es) : ¬ x.Referred (framePts es) := by
  intro href
  rcases h with ⟨ps, p, hps, _, h⟩
  have htaken := h.taken_of_isPrefix hps
  rw [x.framePts_of_events hes] at htaken
  have hok := href h.resize ps.length htaken
  rw [h.filters hf] at hok
  exact Bool.false_ne_true hok

/-- **The packet loop without failing filters** comes to its end exactly when no packet is
rejected before all times are reached, and the frames to be filtered have been referred to. -/
theorem exists_next_iff_rejectsLate (hf : x.ffmpeg.Filters) (hes : x.events = some es) :
    (∃ s, x.loop es = Flow.next s) ↔ x.RejectsLate es ∧ x.Referred (framePts es) := by
  have hloop : Flow.Holds (fun _ => x.RejectsLate es ∧ x.Referred (framePts es))
      (fun _ => ¬ (x.RejectsLate es ∧ x.Referred (framePts es))) (x.loop es) := by
    refine (Flow.holds_forEachWhile (Between x) es (d := [])
      ⟨fun _ he => absurd he List.not_mem_nil, Inv.init⟩
      fun done e rest s hsplit hcond hs => ?_).imp_next fun s hs => ?_
    · have hlt : s.haveWrite < x.tms.length := of_decide_eq_true hcond
      refine (onPacket_between hes hsplit hlt hs).imp_ret fun r hr hcomes => ?_
      rcases hr with ⟨⟨pts, rfl⟩, -⟩ | hstops
      · exact hs.not_rejectsLate hsplit hlt hcomes.1
      · exact hstops.not_referred hf hes hcomes.2
    · rcases hs with ⟨done, rest, hsplit, hbetween, hend⟩
      exact hbetween.atEnd hsplit hend
  cases hrun : x.loop es with
  | next s =>
    rw [hrun, Flow.holds_next] at hloop
    exact iff_of_true ⟨s, rfl⟩ hloop
  | ret r =>
    rw [hrun, Flow.holds_ret] at hloop
    exact iff_of_false (by simp) hloop
  | hang => exact absurd hrun (Flow.forEachWhile_ne_hang _ _ (onPacket_ne_hang x))

end between

/-- **The packet loop** comes to its end exactly when no packet is rejected before all times are
reached, the frames to be filtered have been referred to, and no filter call fails. -/
theorem exists_next_iff (x : Context) {es : List Event} (hes : x.events = some es) :
    (∃ s, x.loop es = Flow.next s) ↔ x.RejectsLate es ∧ x.Referred (framePts es) ∧
      ∀ s, x.willing.loop es = Flow.next s → Answered x.ffmpeg.answer s.log := by
  have hstart : x.Answers State.init := answered_nil _
  have hends : (∃ s, x.willing.loop es = Flow.next s) ↔
      x.RejectsLate es ∧ x.Referred (framePts es) :=
    exists_next_iff_rejectsLate (willing_filters x) (x.willing_events.trans hes)
  rw [(loop_tracks x es).exists_next_iff hstart, Flow.exists_next_and_iff, ← and_assoc]
  exact and_congr_left fun _ => hends

/-! ## When every packet is released -/

/-- When no call fails on a frame, a run gets through unless a packet is rejected before all
times are reached. -/
theorem readsThrough_of_healthy {x : Context} (hh : x.ffmpeg.Healthy)
    (hlate : ∀ es, x.events = some es → x.RejectsLate es) : x.ReadsThrough := by
  intro es hes
  exact ⟨hlate es hes, fun _ n _ => hh.ref n, fun s _ => hh.filters.answered s.log⟩

/-- **A run has released every packet exactly when it is left in the set-up or gets through the
packet loop.** -/
theorem runAll_released_iff (fails : Option SetUp) (x : Context) {r : ℤ × State}
    (hr : runAll fails x = Flow.ret r) :
    PacketsReleased r.2.log ↔ fails ≠ none ∨ x.ReadsThrough := by
  cases fails with
  | some step =>
    simp only [runAll, Flow.ret.injEq] at hr
    subst hr
    exact iff_of_true releasedOnce_nil (Or.inl (Option.some_ne_none step))
  | none =>
    rw [runAll] at hr
    cases hes : x.events with
    | none =>
      simp only [run, hes, Flow.ret.injEq] at hr
      subst hr
      refine iff_of_true releasedOnce_nil (Or.inr fun es hes' => ?_)
      rw [hes] at hes'
      exact absurd hes'.symm (Option.some_ne_none es)
    | some es =>
      rw [released_iff_next hes hr, exists_next_iff x hes]
      constructor
      · intro hcond
        refine Or.inr fun es' hes' => ?_
        rw [hes, Option.some_inj] at hes'
        exact hes' ▸ hcond
      · intro hcond
        exact hcond.resolve_left (fun hne => hne rfl) es hes

end AudioCrash.Video
