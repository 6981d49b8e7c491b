import AudioCrash.Audio.Draining
import AudioCrash.Lib.Trace

/-!
# The packets of the input

Every packet that `av_read_frame` delivers is to be given back by `av_packet_unref`. `run` does
so when the decoder rejects the packet, and at the end of an iteration of the packet loop. The
returns inside of the loop do not, and the destructor does not know the packet.

So a run has released every packet exactly when it gets through the packet loop. This is said
of the calls that the loop makes while none of them fails: FFmpeg answers all of them with
success.

## Main definitions

* `SetUp`, `runAll` — the run, from the first statement on.
* `PacketsReleased` — every packet is released once.
* `Context.willing`, `Context.ReadsThrough` — when a run gets through the packet loop.
* `runAll_released_iff`.
-/

namespace AudioCrash.Audio

open Trace

/-! ## The run from its first statement on -/

/-- The returns of `run` before the packet loop. -/
inductive SetUp where
  | openInput | findStreamInfo | findBestStream
  /-- The stream is AAC already, which only `AudioConvert` asks for. -/
  | isAac
  | open2 | swrAlloc | swrInit | allocOutputContext2 | noAudioCodec | findEncoder | newStream
  | allocContext3 | openEncoder | parametersFromContext | noFile | avioOpen | writeHeader
  | samplesAlloc
  deriving DecidableEq, Repr

/-- The code returned. -/
def SetUp.code : SetUp → ℤ
  | openInput => -1000
  | findStreamInfo => -2000
  | findBestStream => -3000
  | isAac => 1
  | open2 => -4000
  | swrAlloc => -5000
  | swrInit => -6000
  | allocOutputContext2 => -7000
  | noAudioCodec => -8000
  | findEncoder => -9000
  | newStream => -10000
  | allocContext3 => -11000
  | openEncoder => -11000
  | parametersFromContext => -12000
  | noFile => -13000
  | avioOpen => -14000
  | writeHeader => -15000
  | samplesAlloc => -16000

section setUp
variable {α : Type} (x : Context α)

/-- `run`, which may be left in the set-up. -/
def runAll (leaves : Option SetUp) (events : List (Event α)) (mem : ℤ → α) (handle : ℕ → ℤ) :
    Step α :=
  match leaves with
  | some step => Flow.ret (step.code, State.init x mem handle)
  | none => run x events (State.init x mem handle)

end setUp

/-! ## The packets, and the answers -/

section calls
variable {α : Type}

/-- What a call does with the packet of the input. -/
def Call.effect : Call α → Effect
  | .readFrame => .acquire
  | .unref => .release
  | _ => .none

/-- Every packet that `av_read_frame` delivers is released by `av_packet_unref` exactly once,
before the next `av_read_frame` or before the return. -/
def PacketsReleased (log : List (Call α)) : Prop := ReleasedOnce Call.effect log

/-- Whether a call succeeds after the calls of a log. -/
def Ffmpeg.answer (ffmpeg : Ffmpeg α) (log : List (Call α)) : Call α → Bool
  | .push _ => ffmpeg.convertOk log
  | .fill => ffmpeg.fillOk log
  | .sendFrame _ _ => ffmpeg.sendFrameOk log
  | .sendNull => ffmpeg.sendFrameOk log
  | .writeFrame _ => ffmpeg.writeOk log
  | .writeTrailer => ffmpeg.trailerOk log
  | _ => true

/-- The same input and the same packets of the encoder, and no call fails. -/
def Context.willing (x : Context α) : Context α :=
  { x with
    ffmpeg := { x.ffmpeg with
      convertOk := fun _ => true
      fillOk := fun _ => true
      sendFrameOk := fun _ => true
      writeOk := fun _ => true
      trailerOk := fun _ => true } }

/-- The packet loop comes to its end when no call fails, and FFmpeg answers all the calls that
it then makes with success. -/
def Context.ReadsThrough (x : Context α) (events : List (Event α)) (s : State α) : Prop :=
  ∃ s', Flow.forEach (onPacket x.willing) events s = Flow.next s' ∧
    Answered x.ffmpeg.answer s'.log

end calls

/-! ## A chunk, call by call -/

section chunk
variable {α : Type} (x : Context α)

/-- `avcodec_send_frame`. -/
def sendFrame (code : ℤ) (chunk : List (Sample α)) (s : State α) : Step α :=
  let s' := s.call (.sendFrame chunk ⟨s.nbSamples, s.data, s.mem⟩)
  if x.ffmpeg.sendFrameOk s.log then Flow.next s' else Flow.ret (code, s')

theorem sendChunk_eq_bind (fillCode sendCode : ℤ) (chunk : List (Sample α)) (s : State α) :
    sendChunk x fillCode sendCode chunk s =
      ((fillAudioFrame x (tuned x chunk s)).elim (Flow.ret (fillCode, tuned x chunk s))
        Flow.next).bind (sendFrame x sendCode chunk) := by
  simp only [sendChunk, tuned]
  split
  next hfill =>
    rw [hfill]
    rfl
  next hfill =>
    rw [hfill]
    rfl

end chunk

/-! ## The calls that do not concern the packet -/

section untouched
variable {α : Type} {x : Context α} {s : State α} {I : List (Call α) → Prop}

/-- A property of the log holds after a statement, whether it goes on or leaves the function. -/
def LogHolds (I : List (Call α) → Prop) : Step α → Prop :=
  Flow.Holds (fun s => I s.log) fun r => I r.2.log

variable (hI : ∀ {log c}, I log → c.effect = .none → I (log ++ [c]))
include hI

theorem push_logHolds (f : AVFrame α) (h : I s.log) : LogHolds I (push x f s) := by
  simp only [push]
  split_ifs
  · exact hI h rfl
  · exact h

theorem sendChunk_logHolds (fillCode sendCode : ℤ) (chunk : List (Sample α)) (h : I s.log) :
    LogHolds I (sendChunk x fillCode sendCode chunk s) := by
  have hsent : I (handedOver x chunk s).log := hI (hI h rfl) rfl
  exact sendChunk_holds h hsent hsent

theorem receivePackets_logHolds (code : ℤ) (h : I s.log) :
    LogHolds I (receivePackets x code s) := by
  refine Flow.holds_forEach_const (P := fun s : State α => I s.log) _ h fun pkt s hs => ?_
  simp only [receivePacket]
  split_ifs
  · exact hI (hI hs rfl) rfl
  · exact hI (hI hs rfl) rfl
  · exact hI hs rfl

theorem drain_logHolds (h : I s.log) : LogHolds I (drain x s) := by
  refine (Flow.holds_whileLoop (fun s : State α => I s.log) _ h fun s _ hs => ?_).imp_next
    fun _ hs => hs.1
  exact (sendChunk_logHolds hI _ _ _ (hI hs rfl)).bind fun s hs => receivePackets_logHolds hI _ hs

theorem finish_logHolds (h : I s.log) : LogHolds I (finish x s) := by
  have hpull : I (pull x s).2.log := hI h rfl
  refine Flow.Holds.bind (P := fun s : State α => I s.log) ?tail fun s hs => ?_
  case tail =>
    split_ifs
    · exact sendChunk_logHolds hI _ _ _ hpull
    · exact hpull
  refine Flow.Holds.bind (P := fun s : State α => I s.log) ?null fun s hs => ?_
  case null =>
    split_ifs
    · exact hI hs rfl
    · exact hI hs rfl
  refine Flow.Holds.bind (receivePackets_logHolds hI _ hs) fun s hs => ?_
  split_ifs
  · exact hI hs rfl
  · exact hI hs rfl

end untouched

/-! ## One packet, and the packet loop -/

section released
variable {α : Type} {x : Context α} {s : State α} {r : ℤ × State α}

/-- **One packet**: it is released when the iteration comes to its end, and held when the
function is left. -/
theorem onPacket_released (e : Event α) (h : PacketsReleased s.log) :
    Flow.Holds (fun s => PacketsReleased s.log) (fun r => ¬ PacketsReleased r.2.log)
      (onPacket x e s) := by
  have hread : Held Call.effect (s.call .readFrame).log := h.acquire rfl
  cases e with
  | other => exact hread.release rfl
  | rejected => exact hread.release rfl
  | accepted frames =>
    have hframes : LogHolds (Held Call.effect)
        (Flow.forEach (push x) frames (s.call .readFrame)) :=
      Flow.holds_forEach_const (P := fun s : State α => Held Call.effect s.log) _ hread
        fun f s hs => push_logHolds Held.concat f hs
    have hdrain : LogHolds (Held Call.effect)
        ((Flow.forEach (push x) frames (s.call .readFrame)).bind fun s =>
          if x.pipeline.interleaved then drain x s else Flow.next s) := by
      refine hframes.bind fun s hs => ?_
      split_ifs
      · exact drain_logHolds Held.concat hs
      · exact hs
    refine Flow.Holds.bind (hdrain.imp_ret fun _ hr => hr.not_releasedOnce) fun s hs => ?_
    exact hs.release rfl

theorem forEach_released (events : List (Event α)) (h : PacketsReleased s.log) :
    Flow.Holds (fun s => PacketsReleased s.log) (fun r => ¬ PacketsReleased r.2.log)
      (Flow.forEach (onPacket x) events s) :=
  Flow.holds_forEach_const (P := fun s : State α => PacketsReleased s.log) events h
    fun e _ hs => onPacket_released e hs

/-- After the packet loop no packet is held. -/
theorem rest_released (h : PacketsReleased s.log) :
    LogHolds PacketsReleased
      ((if x.pipeline.interleaved then Flow.next s else drain x s).bind (finish x)) := by
  refine Flow.Holds.bind (P := fun s : State α => PacketsReleased s.log) ?_ fun s hs =>
    finish_logHolds ReleasedOnce.concat hs
  split_ifs
  · exact h
  · exact drain_logHolds ReleasedOnce.concat h

/-- A run has released every packet exactly when it gets through the packet loop. -/
theorem released_iff_next {events : List (Event α)} (h : PacketsReleased s.log)
    (hr : run x events s = Flow.ret r) :
    PacketsReleased r.2.log ↔ ∃ s', Flow.forEach (onPacket x) events s = Flow.next s' :=
  (forEach_released events h).iff_exists_next
    (fun _ hs => (rest_released hs).imp_next fun _ _ => trivial) hr

end released

/-! ## The loop that is not left -/

section willing
variable {α : Type} (x : Context α)

@[simp] theorem willing_C : x.willing.C = x.C := rfl
@[simp] theorem willing_streamIndex : x.willing.streamIndex = x.streamIndex := rfl
@[simp] theorem willing_F : x.willing.F = x.F := rfl
@[simp] theorem willing_rescaleTs : x.willing.ffmpeg.rescaleTs = x.ffmpeg.rescaleTs := rfl
@[simp] theorem willing_fillOk (log : List (Call α)) : x.willing.ffmpeg.fillOk log = true := rfl
@[simp] theorem willing_writeOk (log : List (Call α)) : x.willing.ffmpeg.writeOk log = true := rfl

theorem willing_healthy : x.willing.ffmpeg.Healthy := by
  constructor <;> intro log <;> rfl

/-- The loop in which no call fails comes to its end, so that getting through is a matter of the
answers alone. -/
theorem readsThrough_iff (hF : 1 ≤ x.F) (events : List (Event α)) (mem : ℤ → α)
    (handle : ℕ → ℤ) :
    x.ReadsThrough events (State.init x mem handle) ↔
      ∀ s, Flow.forEach (onPacket x.willing) events (State.init x mem handle) = Flow.next s →
        Answered x.ffmpeg.answer s.log := by
  rcases run_eq_ret x.willing (willing_healthy x) hF events mem handle with ⟨s, hs⟩
  rcases exists_next_of_run x.willing hs with ⟨s', hs'⟩
  rw [Context.ReadsThrough, Flow.exists_next_and_iff]
  exact and_iff_right ⟨s', hs'⟩

theorem answer_of_healthy {ffmpeg : Ffmpeg α} (h : ffmpeg.Healthy) (log : List (Call α))
    (c : Call α) : ffmpeg.answer log c = true := by
  cases c with
  | push xs => exact h.convert log
  | fill => exact h.fill log
  | sendFrame chunk frame => exact h.sendFrame log
  | sendNull => exact h.sendFrame log
  | writeFrame pkt => exact h.write log
  | writeTrailer => exact h.trailer log
  | _ => rfl

/-- With FFmpeg calls that do not fail, a run gets through. -/
theorem readsThrough_of_healthy (h : x.ffmpeg.Healthy) (hF : 1 ≤ x.F) (events : List (Event α))
    (mem : ℤ → α) (handle : ℕ → ℤ) : x.ReadsThrough events (State.init x mem handle) :=
  (readsThrough_iff x hF events mem handle).2 fun s _ =>
    answered_of_forall (answer_of_healthy h) s.log

end willing

section tracks
variable {α : Type} (x : Context α)

/-- FFmpeg has answered all calls with success. -/
def Context.Answers (s : State α) : Prop := Answered x.ffmpeg.answer s.log

/-- A statement goes on exactly where it goes on when no call fails and all are answered with
success. -/
abbrev StepTracks (s : State α) : Step α → Step α → Prop := Flow.Tracks (x.Answers s) x.Answers

/-- A call that cannot fail. -/
theorem answers_of_call {s s' : State α} {c : Call α} (hs' : s'.log = s.log ++ [c])
    (hc : x.ffmpeg.answer s.log c = true) : x.Answers s ↔ x.Answers s' := by
  rw [Context.Answers, Context.Answers, hs', answered_concat, hc, and_iff_left rfl]

/-- A call that may fail. -/
theorem call_tracks (s : State α) (c : Call α) {s' : State α} (hs' : s'.log = s.log ++ [c])
    (r : ℤ × State α) :
    StepTracks x s (if x.ffmpeg.answer s.log c = true then Flow.next s' else Flow.ret r)
      (Flow.next s') := by
  refine Flow.tracks_ite ?_ r
  rw [Context.Answers, Context.Answers, hs', answered_concat]

theorem push_tracks (f : AVFrame α) (s : State α) :
    StepTracks x s (push x f s) (push x.willing f s) :=
  call_tracks x s (.push _) rfl _

/-- `avcodec_fill_audio_frame`. A buffer that is too small leaves both functions. -/
theorem fillAudioFrame_tracks (code : ℤ) (s : State α) :
    StepTracks x s ((fillAudioFrame x s).elim (Flow.ret (code, s)) Flow.next)
      ((fillAudioFrame x.willing s).elim (Flow.ret (code, s)) Flow.next) := by
  simp only [fillAudioFrame, willing_C, willing_F, willing_fillOk, if_true]
  by_cases hsize : bufferSize x.C x.F < bufferSize x.C s.nbSamples
  · rw [if_pos hsize, if_pos hsize]
    exact Flow.tracks_ret _ _
  · rw [if_neg hsize, if_neg hsize, apply_ite fun o : Option (State α) => o.elim _ _]
    exact call_tracks x s .fill rfl _

theorem sendChunk_tracks (fillCode sendCode : ℤ) (chunk : List (Sample α)) (s : State α) :
    StepTracks x s (sendChunk x fillCode sendCode chunk s)
      (sendChunk x.willing fillCode sendCode chunk s) := by
  rw [sendChunk_eq_bind, sendChunk_eq_bind]
  refine (fillAudioFrame_tracks x fillCode (tuned x chunk s)).bind fun s => ?_
  exact call_tracks x s (.sendFrame _ _) rfl _

theorem receivePackets_tracks (code : ℤ) (s : State α) :
    StepTracks x s (receivePackets x code s) (receivePackets x.willing code s) := by
  refine Flow.tracks_forEach _ s fun pkt s => ?_
  have hreceive : x.Answers s ↔ x.Answers (s.call (.receivePacket pkt)) := answers_of_call x rfl rfl
  simp only [receivePacket, willing_streamIndex, willing_rescaleTs, willing_writeOk, if_true]
  by_cases hdrop : s.drop = true
  · simp only [State.call_drop, hdrop, Bool.not_true, Bool.false_eq_true, if_false]
    exact Flow.tracks_next hreceive
  · simp only [State.call_drop, hdrop, Bool.not_false, if_true]
    exact (call_tracks x _ (.writeFrame _) rfl _).of_iff hreceive

theorem drain_tracks (s : State α) : StepTracks x s (drain x s) (drain x.willing s) := by
  refine Flow.tracks_whileLoop _ s fun s => ?_
  have hpull : x.Answers s ↔ x.Answers (pull x s).2 := answers_of_call x rfl rfl
  exact ((sendChunk_tracks x _ _ _ _).bind (receivePackets_tracks x _)).of_iff hpull

/-- **One packet.** -/
theorem onPacket_tracks (e : Event α) (s : State α) :
    StepTracks x s (onPacket x e s) (onPacket x.willing e s) := by
  have hread : x.Answers s ↔ x.Answers (s.call .readFrame) := answers_of_call x rfl rfl
  have hunref : ∀ s, StepTracks x s (Flow.next (s.call .unref)) (Flow.next (s.call .unref)) :=
    fun s => Flow.tracks_next (answers_of_call x rfl rfl)
  refine Flow.Tracks.of_iff ?_ hread
  cases e with
  | other => exact hunref _
  | rejected => exact hunref _
  | accepted frames =>
    refine Flow.Tracks.bind (Flow.Tracks.bind (Flow.tracks_forEach frames _ fun f s =>
      push_tracks x f s) fun s => ?_) fun s => hunref s
    by_cases hinterleaved : x.pipeline.interleaved = true
    · rw [if_pos hinterleaved, if_pos (by exact hinterleaved)]
      exact drain_tracks x s
    · rw [if_neg hinterleaved, if_neg (by exact hinterleaved)]
      exact Flow.tracks_next Iff.rfl

/-- **The packet loop** comes to its end exactly when it does so without a failing call, and no
call fails. -/
theorem exists_next_iff (events : List (Event α)) {s : State α} (h : s.log = []) :
    (∃ s', Flow.forEach (onPacket x) events s = Flow.next s') ↔ x.ReadsThrough events s := by
  have hstart : x.Answers s := by
    rw [Context.Answers, h]
    exact answered_nil _
  have htracks : StepTracks x s (Flow.forEach (onPacket x) events s)
      (Flow.forEach (onPacket x.willing) events s) :=
    Flow.tracks_forEach events s (onPacket_tracks x)
  exact htracks.exists_next_iff hstart

end tracks

/-! ## When every packet is released -/

/-- **A run has released every packet exactly when it is left in the set-up or gets through the
packet loop.** -/
theorem runAll_released_iff {α : Type} (x : Context α) (leaves : Option SetUp)
    (events : List (Event α)) (mem : ℤ → α) (handle : ℕ → ℤ) {r : ℤ × State α}
    (hr : runAll x leaves events mem handle = Flow.ret r) :
    PacketsReleased r.2.log ↔
      leaves ≠ none ∨ x.ReadsThrough events (State.init x mem handle) := by
  cases leaves with
  | some step =>
    simp only [runAll, Flow.ret.injEq] at hr
    subst hr
    exact iff_of_true releasedOnce_nil (Or.inl (Option.some_ne_none step))
  | none =>
    have hinit : PacketsReleased (State.init x mem handle).log := releasedOnce_nil
    rw [released_iff_next hinit hr, exists_next_iff x events rfl]
    simp

end AudioCrash.Audio
