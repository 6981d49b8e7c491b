import AudioCrash.Lib.Trace
import AudioCrash.Video.Matching

/-!
# The answers of the filters

A run is left when a call of the filters fails. Here a run is compared with one over the same
input in which no filter fails (`Context.willing`): both do the same as long as FFmpeg answers the
calls with success, and a run that returns 0 is the willing one.

## Main definitions

* `Ffmpeg.answer`, `Context.willing`, `Context.Answers` — the answers to the filter calls.
* `Context.loop`, `Context.passes` — the packet loop, and the run up to its end.
* `run_eq_ret_iff` — the runs that return 0.
* `Context.FiltersAnswer` — no filter call of the willing run fails.
-/

namespace AudioCrash.Video

open Trace

/-- Whether a filter call succeeds after the calls of a log. The codes of `write` are dropped. -/
def Ffmpeg.answer (ffmpeg : Ffmpeg) (log : List Call) : Call → Bool
  | .addFrame => ffmpeg.addFrameOk log
  | .getFrame => ffmpeg.getFrameOk log
  | _ => true

namespace Context
variable (x : Context)

/-- The packet loop. -/
def loop (es : List Event) : Step State :=
  Flow.forEachWhile (fun s => decide (s.haveWrite < x.tms.length)) (onPacket x) es State.init

/-- The packet loop, and the indices that it has not served. -/
def passes (es : List Event) : Step State :=
  (x.loop es).bind fun s => if s.haveWrite < x.tms.length then fallback x s else Flow.next s

/-- The same input, and no filter fails. -/
def willing : Context :=
  { x with
    ffmpeg := { x.ffmpeg with
      addFrameOk := fun _ => true
      getFrameOk := fun _ => true } }

end Context

section willing
variable (x : Context)

theorem willing_filters : x.willing.ffmpeg.Filters := ⟨fun _ => rfl, fun _ => rfl⟩

@[simp] theorem Context.willing_events : x.willing.events = x.events := rfl
@[simp] theorem willing_addFrameOk (log : List Call) :
    x.willing.ffmpeg.addFrameOk log = true := rfl
@[simp] theorem willing_getFrameOk (log : List Call) :
    x.willing.ffmpeg.getFrameOk log = true := rfl

end willing

/-! ## The willing run -/

section tracks
variable (x : Context)

/-- FFmpeg has answered all filter calls with success. -/
def Context.Answers (s : State) : Prop := Answered x.ffmpeg.answer s.log

/-- A call that cannot fail. -/
theorem answers_of_call {s s' : State} {c : Call} (hs' : s'.log = s.log ++ [c])
    (hc : x.ffmpeg.answer s.log c = true) : x.Answers s ↔ x.Answers s' := by
  rw [Context.Answers, Context.Answers, hs', answered_concat, hc, and_iff_left rfl]

theorem filterFrame_tracks (s : State) :
    Flow.Tracks (x.Answers s) x.Answers (filterFrame x s) (filterFrame x.willing s) := by
  simp only [filterFrame]
  by_cases hresize : x.needResize = true
  · have hwilling : x.willing.needResize = true := hresize
    rw [if_pos hresize, if_pos hwilling]
    cases s.ref with
    | none => exact Flow.tracks_ret _ _
    | some picture =>
      have hpassed : Answered x.ffmpeg.answer (s.log ++ [.addFrame] ++ [.getFrame]) ↔
          (x.Answers s ∧ x.ffmpeg.addFrameOk s.log = true) ∧
            x.ffmpeg.getFrameOk (s.log ++ [.addFrame]) = true := by
        rw [answered_concat, answered_concat]
        rfl
      simp only [willing_addFrameOk, willing_getFrameOk, Bool.not_true, Bool.false_eq_true,
        if_false]
      split_ifs with hadd hget
      · refine Flow.tracks_ret_next (fun hfinal => ?_) _
        simp [(hpassed.1 hfinal).1.2] at hadd
      · refine Flow.tracks_ret_next (fun hfinal => ?_) _
        simp [(hpassed.1 hfinal).2] at hget
      · simp only [Bool.not_eq_true, Bool.not_eq_false', State.call_log] at hadd hget
        refine Flow.tracks_next (Iff.trans ?_ hpassed.symm)
        rw [hadd, hget, and_iff_left rfl, and_iff_left rfl]
  · have hwilling : ¬ x.willing.needResize = true := hresize
    rw [if_neg hresize, if_neg hwilling]
    exact Flow.tracks_next Iff.rfl

theorem tryIndex_tracks (pts : ℤ) (idx : ℕ) (q : Bool × State) :
    Flow.Tracks (x.Answers q.2) (fun q => x.Answers q.2) (tryIndex x pts idx q)
      (tryIndex x.willing pts idx q) := by
  rcases q with ⟨process, s⟩
  simp only [tryIndex]
  by_cases hdue : (s.needWrite idx && x.due pts (x.tm idx)) = true
  · have hwilling : (s.needWrite idx && x.willing.due pts (x.willing.tm idx)) = true := hdue
    rw [if_pos hdue, if_pos hwilling]
    refine Flow.Tracks.bind (Q := x.Answers) ?_ fun s =>
      Flow.tracks_next (answers_of_call x (c := .write _) rfl rfl)
    cases process with
    | true => exact Flow.tracks_next Iff.rfl
    | false => exact filterFrame_tracks x s
  · have hwilling : ¬ (s.needWrite idx && x.willing.due pts (x.willing.tm idx)) = true := hdue
    rw [if_neg hdue, if_neg hwilling]
    exact Flow.tracks_next Iff.rfl

theorem onFrame_tracks (pts : ℤ) (f : Frame) (s : State) :
    Flow.Tracks (x.Answers s) x.Answers (onFrame x pts f s) (onFrame x.willing pts f s) := by
  refine Flow.Tracks.bind (Q := fun q : Bool × State => x.Answers q.2) ?_ fun q =>
    Flow.tracks_next Iff.rfl
  exact Flow.Tracks.of_iff (Flow.tracks_forEach (List.range x.tms.length) (false, _)
    (tryIndex_tracks x pts)) Iff.rfl

/-- **One packet.** -/
theorem onPacket_tracks (e : Event) (s : State) :
    Flow.Tracks (x.Answers s) x.Answers (onPacket x e s) (onPacket x.willing e s) := by
  have hread : x.Answers s ↔ x.Answers (s.call .readFrame) := answers_of_call x rfl rfl
  have hunref : ∀ s, Flow.Tracks (x.Answers s) x.Answers
      (Flow.next (s.call .unref) : Step State) (Flow.next (s.call .unref)) :=
    fun s => Flow.tracks_next (answers_of_call x rfl rfl)
  refine Flow.Tracks.of_iff ?_ hread
  cases e with
  | other => exact hunref _
  | rejected pts => exact Flow.tracks_ret _ _
  | accepted pts frames =>
    exact Flow.Tracks.bind (Flow.tracks_forEach frames _ (onFrame_tracks x pts)) hunref

theorem fallbackIndex_tracks (idx : ℕ) (s : State) :
    Flow.Tracks (x.Answers s) x.Answers (fallbackIndex x idx s)
      (fallbackIndex x.willing idx s) := by
  simp only [fallbackIndex]
  split_ifs
  · exact Flow.tracks_next (answers_of_call x (c := .write _) rfl rfl)
  · exact Flow.tracks_next Iff.rfl

/-- **The fallback.** -/
theorem fallback_tracks (s : State) :
    Flow.Tracks (x.Answers s) x.Answers (fallback x s) (fallback x.willing s) := by
  refine (filterFrame_tracks x s).bind fun s₁ => ?_
  exact Flow.Tracks.bind (Flow.tracks_forEach (List.range x.tms.length) s₁
    (fallbackIndex_tracks x)) fun s₂ => Flow.tracks_next Iff.rfl

theorem loop_tracks (es : List Event) :
    Flow.Tracks (x.Answers State.init) x.Answers (x.loop es) (x.willing.loop es) :=
  Flow.tracks_forEachWhile es _ (onPacket_tracks x)

theorem passes_tracks (es : List Event) :
    Flow.Tracks (x.Answers State.init) x.Answers (x.passes es) (x.willing.passes es) := by
  refine (loop_tracks x es).bind fun s => ?_
  have hsame : x.willing.tms = x.tms := rfl
  rw [hsame]
  split_ifs
  · exact fallback_tracks x s
  · exact Flow.tracks_next Iff.rfl

end tracks

/-! ## The runs that return 0 -/

section codes
variable {x : Context}

theorem filterFrame_code (s : State) :
    Flow.Holds (fun _ => True) (fun r => r.1 ≠ 0) (filterFrame x s) :=
  (filterFrame_filtered s).imp (fun _ _ => trivial) fun _ hr => hr.code

theorem onFrame_code (pts : ℤ) (f : Frame) (s : State) :
    Flow.Holds (fun _ => True) (fun r => r.1 ≠ 0) (onFrame x pts f s) := by
  refine Flow.Holds.bind (P := fun _ : Bool × State => True)
    (Flow.holds_forEach_const _ trivial fun idx q _ => ?_) fun _ _ => trivial
  rcases q with ⟨process, s⟩
  simp only [tryIndex]
  split_ifs
  · exact (filterFrame_code s).bind fun _ _ => trivial
  · trivial
  · trivial

theorem onPacket_code (e : Event) (s : State) :
    Flow.Holds (fun _ => True) (fun r => r.1 ≠ 0) (onPacket x e s) := by
  cases e with
  | other => trivial
  | rejected pts => exact (by decide : (-600 : ℤ) ≠ 0)
  | accepted pts frames =>
    exact Flow.Holds.bind (P := fun _ => True) (Flow.holds_forEach_const frames trivial
      fun f s _ => onFrame_code pts f s) fun _ _ => trivial

theorem fallback_code (s : State) :
    Flow.Holds (fun _ => True) (fun r => r.1 ≠ 0) (fallback x s) := by
  refine (filterFrame_code s).bind fun s _ => ?_
  refine Flow.Holds.bind (P := fun _ => True)
    (Flow.holds_forEach_const _ trivial fun idx s _ => ?_) fun _ _ => trivial
  simp only [fallbackIndex]
  split_ifs <;> trivial

/-- A run that is left before its end returns no 0. -/
theorem passes_code (es : List Event) :
    Flow.Holds (fun _ => True) (fun r => r.1 ≠ 0) (x.passes es) := by
  refine Flow.Holds.bind (P := fun _ => True) ?_ fun s _ => ?_
  · exact (Flow.holds_forEachWhile (fun _ _ => True) es (d := []) trivial
      fun _ e _ s _ _ _ => onPacket_code e s).imp_next fun _ _ => trivial
  · split_ifs
    · exact fallback_code s
    · trivial

theorem run_eq_passes {es : List Event} (hes : x.events = some es) :
    run x = (x.passes es).bind fun s => Flow.ret (0, { s with ref := none }) := by
  rw [Context.passes, Flow.bind_assoc]
  simp only [run, hes, Context.loop]

/-- A run returns 0 when it has come to its end. -/
theorem run_eq_ret_zero_iff {es : List Event} (hes : x.events = some es) {r : ℤ × State}
    (hcode : r.1 = 0) :
    run x = Flow.ret r ↔ ∃ s, x.passes es = Flow.next s ∧ r = (0, { s with ref := none }) := by
  rw [run_eq_passes hes, Flow.bind_eq_ret_iff]
  have hne : x.passes es ≠ Flow.ret r := by
    intro hret
    have hleft := passes_code (x := x) es
    rw [hret] at hleft
    exact hleft hcode
  rw [or_iff_right hne]
  simp only [Flow.ret.injEq, eq_comm]

/-- **The runs that return 0** are the willing ones whose filter calls are all answered with
success. -/
theorem run_eq_ret_iff (x : Context) {r : ℤ × State} (hcode : r.1 = 0) :
    run x = Flow.ret r ↔ run x.willing = Flow.ret r ∧ Answered x.ffmpeg.answer r.2.log := by
  cases hes : x.events with
  | none =>
    have hseek : ∀ y : Context, y.events = none → run y ≠ Flow.ret r := by
      intro y hy hret
      simp only [run, hy, Flow.ret.injEq] at hret
      rw [← hret] at hcode
      exact absurd hcode (by decide)
    exact iff_of_false (hseek x hes) fun h => hseek x.willing hes h.1
  | some es =>
    rw [run_eq_ret_zero_iff hes hcode, run_eq_ret_zero_iff (x := x.willing) hes hcode]
    constructor
    · rintro ⟨s, hs, rfl⟩
      rcases (passes_tracks x es s).1 ⟨answered_nil _, hs⟩ with ⟨hwilling, hanswers⟩
      exact ⟨⟨s, hwilling, rfl⟩, hanswers⟩
    · rintro ⟨⟨s, hs, rfl⟩, hanswers⟩
      exact ⟨s, ((passes_tracks x es s).2 ⟨hs, hanswers⟩).2, rfl⟩

end codes

/-- FFmpeg answers with success to all the filter calls that the run makes when none fails. -/
def Context.FiltersAnswer (x : Context) : Prop :=
  ∀ r, run x.willing = Flow.ret r → Answered x.ffmpeg.answer r.2.log

theorem Ffmpeg.Filters.answered {ffmpeg : Ffmpeg} (hf : ffmpeg.Filters) (log : List Call) :
    Answered ffmpeg.answer log := by
  refine answered_of_forall (fun log c => ?_) log
  cases c with
  | addFrame => exact hf.addFrame log
  | getFrame => exact hf.getFrame log
  | _ => rfl

end AudioCrash.Video
