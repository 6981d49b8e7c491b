import AudioCrash.Audio.Planes
import Mathlib.Data.List.Induction

/-!
# What the decoder still holds at the end of the file

A decoder takes packets and gives frames, and may hold some of them back until it is sent the
null packet. The loop over the packets of the input sends the packets of the selected stream
and receives after each, and is left at the end of the file without the null packet. What the
resampler gets is therefore all of the output of the decoder exactly when the decoder holds
no sample back at that point.

## Main definitions

* `Decoder`, `Decoder.decode` — the packets of the input turned into events.
* `Decoder.output` — what the decoder gives for the whole stream, the null packet included.
* `Kept` — the steps that take no frame.
* `TakesAll`, `takesAll_iff` — for which decoders and packets everything is taken.
-/

namespace AudioCrash.Audio

/-! ## Decoders -/

/-- A decoder with its states and packets. -/
structure Decoder (σ π α : Type) where
  /-- `avcodec_send_packet`, and the frames received until the decoder asks for input; none
  if the packet is rejected. -/
  send : σ → π → σ × Option (List (AVFrame α))
  /-- The frames received after the null packet. -/
  drain : σ → List (AVFrame α)

/-- What `av_read_frame` delivers: a packet of another stream, or of the selected one. -/
inductive Demuxed (π : Type) where
  | other
  | selected (packet : π)
  deriving DecidableEq, Repr

namespace Decoder
variable {σ π α : Type} (d : Decoder σ π α)

/-- The decoder at one packet of the input. -/
def event (s : σ) : Demuxed π → σ × Event α
  | .other => (s, .other)
  | .selected packet =>
    match d.send s packet with
    | (s, none) => (s, .rejected)
    | (s, some frames) => (s, .accepted frames)

/-- The decoder over the packets of the input: what it gives for each, and its last state. -/
def decode : σ → List (Demuxed π) → List (Event α) × σ
  | s, [] => ([], s)
  | s, packet :: packets =>
    let (s, event) := d.event s packet
    let (events, s) := decode s packets
    (event :: events, s)

/-- The frames held back at the end of the file. -/
def held (s : σ) (packets : List (Demuxed π)) : List (AVFrame α) :=
  d.drain (d.decode s packets).2

/-- The frames that the decoder gives for the whole stream. -/
def output (s : σ) (packets : List (Demuxed π)) : List (AVFrame α) :=
  allFrames (d.decode s packets).1 ++ d.held s packets

end Decoder

/-- The samples of decoded frames. -/
def sampleFrames {α : Type} (fmt : SampleFormat) (nb_channels : ℕ) (frames : List (AVFrame α)) :
    List (Sample α) :=
  frames.flatMap fun f => f.samples fmt nb_channels f.nbSamples f.data

section sampleFrames
variable {α : Type} (fmt : SampleFormat) (C : ℕ) (frames frames' : List (AVFrame α))

@[simp] theorem sampleFrames_append :
    sampleFrames fmt C (frames ++ frames') =
      sampleFrames fmt C frames ++ sampleFrames fmt C frames' := by simp [sampleFrames]
@[simp] theorem length_sampleFrames :
    (sampleFrames fmt C frames).length = totalSamples frames := by
  simp [sampleFrames, totalSamples, List.length_flatMap]

end sampleFrames

/-! ## The steps that take no frame -/

section run
variable {α : Type} (x : Context α)

/-- No frame is received between `s` and `s'`. -/
structure Kept (s s' : State α) : Prop where
  decoded : s'.decoded = s.decoded
  pushed : pushed s'.log = pushed s.log

theorem Kept.refl (s : State α) : Kept s s := ⟨rfl, rfl⟩

theorem Kept.trans {s s' s'' : State α} (h : Kept s s') (h' : Kept s' s'') : Kept s s'' :=
  ⟨h'.decoded.trans h.decoded, h'.pushed.trans h.pushed⟩

theorem Kept.call {c : Call α} (hc : c.quiet = true) (s : State α) : Kept s (s.call c) :=
  ⟨rfl, pushed_quiet hc s.log⟩

/-- A statement takes no frame, whether it goes on or leaves the function. -/
def Keeps (s : State α) : Step α → Prop := Flow.Holds (Kept s) fun r => Kept s r.2

theorem Keeps.bind {s : State α} {step : Step α} {f : State α → Step α} (h : Keeps s step)
    (hf : ∀ s, Keeps s (f s)) : Keeps s (step.bind f) := by
  refine Flow.Holds.bind h fun s' hs' => ?_
  exact (hf s').imp (fun _ hs'' => hs'.trans hs'') fun _ hr => hs'.trans hr

theorem receivePacket_keeps (code : ℤ) (pkt : Packet) (s : State α) :
    Keeps s (receivePacket x code pkt s) := by
  have hreceive : Kept s (s.call (.receivePacket pkt)) := Kept.call rfl s
  have hwrite : ∀ pkt' : Packet, Kept s ((s.call (.receivePacket pkt)).call (.writeFrame pkt')) :=
    fun pkt' => hreceive.trans (Kept.call rfl _)
  simp only [receivePacket]
  split_ifs
  · exact hwrite _
  · exact hwrite _
  · exact ⟨hreceive.decoded, hreceive.pushed⟩

theorem receivePackets_keeps (code : ℤ) (s : State α) : Keeps s (receivePackets x code s) := by
  refine Flow.holds_forEach_const _ (Kept.refl s) fun pkt s' hs' => ?_
  exact (receivePacket_keeps x code pkt s').imp (fun _ h => hs'.trans h) fun _ h => hs'.trans h

theorem pull_kept (s : State α) : Kept s (pull x s).2 := ⟨rfl, pull_pushed x s⟩

theorem sendChunk_keeps (fillCode sendCode : ℤ) (chunk : List (Sample α)) (s : State α) :
    Keeps s (sendChunk x fillCode sendCode chunk s) := by
  have hsent : Kept s (handedOver x chunk s) := ⟨rfl, pushed_handedOver x chunk s⟩
  exact sendChunk_holds ⟨rfl, rfl⟩ hsent hsent

theorem drain_keeps (s : State α) : Keeps s (drain x s) := by
  refine (drain_of_step (x := x) (D := Kept s) (Q := fun r => Kept s r.2) ?_ (Kept.refl s)).imp_next
    fun _ h => h.1
  intro s' _ hs'
  have hstep : Keeps (pull x s').2 (drainStep x s') :=
    (sendChunk_keeps x _ _ _ _).bind (receivePackets_keeps x _)
  have hpull := hs'.trans (pull_kept x s')
  exact hstep.imp (fun _ h => hpull.trans h) fun _ h => hpull.trans h

/-- After the loop over the packets, no frame is taken any more. -/
theorem finish_keeps (s : State α) : Keeps s (finish x s) := by
  have hpull := pull_kept x s
  have htail : Keeps (pull x s).2 (if 0 < (pull x s).1.length then
      sendChunk x (-22000) (-23000) (pull x s).1 (pull x s).2 else Flow.next (pull x s).2) := by
    split_ifs
    · exact sendChunk_keeps x _ _ _ _
    · exact Kept.refl _
  refine Keeps.bind (htail.imp (fun _ h => hpull.trans h) fun _ h => hpull.trans h) fun s => ?_
  refine Keeps.bind ?null fun s => (receivePackets_keeps x _ s).bind fun s => ?trailer
  case null =>
    split_ifs
    · exact Kept.call rfl s
    · exact Kept.call rfl s
  case trailer =>
    split_ifs
    · exact Kept.call rfl s
    · exact Kept.call rfl s

/-! ## The frames taken -/

/-- The frames of one packet are taken one after the other. -/
theorem onPacket_decoded (e : Event α) (s : State α) :
    Flow.Holds (fun s' => s'.decoded = s.decoded ++ e.frames) (fun _ => True) (onPacket x e s) := by
  cases e with
  | other => simp [onPacket, Event.frames]
  | rejected => simp [onPacket, Event.frames]
  | accepted frames =>
    have hpush : Flow.Holds (fun s' => s'.decoded = s.decoded ++ frames) (fun _ => True)
        (Flow.forEach (push x) frames (s.call .readFrame)) := by
      refine Flow.holds_forEach (fun pre (s' : State α) => s'.decoded = s.decoded ++ pre) frames
        (d := []) (by simp) ?_
      intro pre f _ s' _ hs'
      simp only [push]
      split_ifs
      · simp [hs']
      · trivial
    refine Flow.Holds.bind (P := fun s' => s'.decoded = s.decoded ++ frames)
      (Flow.Holds.bind hpush fun s' hs' => ?drained) fun s' hs' => ?unref
    case drained =>
      split_ifs
      · exact (drain_keeps x s').imp (fun _ h => h.decoded.trans hs') fun _ _ => trivial
      · exact hs'
    case unref => exact hs'

/-- At the end of the file, the frames of the events have been taken. -/
theorem forEach_decoded (events : List (Event α)) (mem : ℤ → α) (handle : ℕ → ℤ) :
    Flow.Holds (fun s => s.decoded = allFrames events ∧
        pushed s.log = (x.stream handle (allFrames events)).2) (fun r => r.1 ≠ 0)
      (Flow.forEach (onPacket x) events (State.init x mem handle)) := by
  refine (Flow.holds_forEach (fun pre s => s.decoded = allFrames pre ∧ Between x handle pre s)
    events (d := []) ⟨rfl, Inv.init mem handle, fun _ => Nat.zero_le _⟩ ?_).imp_next
    fun s hs => ⟨hs.1, hs.2.1.pushed⟩
  intro pre e _ s _ hs
  refine ((onPacket_decoded x e s).and (onPacket_between e hs.2)).imp ?_ fun _ hr => hr.2.code
  rintro s' ⟨hdecoded, hbetween⟩
  exact ⟨by rw [hdecoded, hs.1, allFrames_concat], hbetween⟩

/-- **A run that reaches the end of the file has taken the frames of the events and no
other**, whatever happens afterwards. -/
theorem run_taken {events : List (Event α)} {mem : ℤ → α} {handle : ℕ → ℤ} {s : State α}
    {r : ℤ × State α}
    (hloop : Flow.forEach (onPacket x) events (State.init x mem handle) = Flow.next s)
    (hr : run x events (State.init x mem handle) = Flow.ret r) :
    r.2.decoded = allFrames events ∧ pushed r.2.log = (x.stream handle (allFrames events)).2 := by
  have htaken := forEach_decoded x events mem handle
  rw [hloop, Flow.holds_next] at htaken
  have hrest : Keeps s (run x events (State.init x mem handle)) := by
    simp only [run, hloop, Flow.bind_next]
    refine Keeps.bind ?_ fun s => finish_keeps x s
    split_ifs
    · exact Kept.refl s
    · exact drain_keeps x s
  rw [hr] at hrest
  exact ⟨hrest.decoded.trans htaken.1, hrest.pushed.trans htaken.2⟩

/-- A run that returns 0 has reached the end of the file. -/
theorem exists_next_of_run {events : List (Event α)} {mem : ℤ → α} {handle : ℕ → ℤ}
    {s : State α} (hr : run x events (State.init x mem handle) = Flow.ret (0, s)) :
    ∃ s', Flow.forEach (onPacket x) events (State.init x mem handle) = Flow.next s' := by
  rcases Flow.bind_eq_ret_iff.1 hr with hloop | ⟨s', hloop, _⟩
  · have htaken := forEach_decoded x events mem handle
    rw [hloop, Flow.holds_ret] at htaken
    exact absurd rfl htaken
  · exact ⟨s', hloop⟩

/-- The classes other than `AudioCut` push whole frames. -/
theorem stream_feedFrame (hfeed : x.pipeline.feed = feedFrame) (handle : ℕ → ℤ)
    (frames : List (AVFrame α)) : (x.stream handle frames).2 = sampleFrames x.fmt x.C frames := by
  induction frames using List.reverseRecOn with
  | nil => rfl
  | append_singleton frames f ih =>
    rw [Context.stream_concat, Context.feedStep_eq, ih, sampleFrames_append]
    simp [Context.feedStep, hfeed, feedFrame, sampleFrames]

end run

/-! ## When everything is taken -/

section takesAll
variable {σ π : Type}

/-- The samples pushed into the resampler; for `AudioCut`, the samples offered to `cut`. -/
def taken (program : Program) (x : Context ℚ) (s : State ℚ) : List (Sample ℚ) :=
  match program with
  | .cut => sampleFrames x.fmt x.C s.decoded
  | _ => pushed s.log

/-- In every run that reaches the end of the file, the program takes every sample that the
decoder gives for the whole stream. -/
def TakesAll (program : Program) (d : Decoder σ π ℚ) (s₀ : σ) (packets : List (Demuxed π)) :
    Prop :=
  ∀ x : Context ℚ, x.pipeline ∈ program.pipelines →
    ∀ (mem : ℤ → ℚ) (handle : ℕ → ℤ) (s : State ℚ) (r : ℤ × State ℚ),
      Flow.forEach (onPacket x) (d.decode s₀ packets).1 (State.init x mem handle) = Flow.next s →
      run x (d.decode s₀ packets).1 (State.init x mem handle) = Flow.ret r →
      taken program x r.2 = sampleFrames x.fmt x.C (d.output s₀ packets)

/-- What a program takes are the samples of the frames received. -/
theorem taken_eq {program : Program} {x : Context ℚ} (hx : x.pipeline ∈ program.pipelines)
    {events : List (Event ℚ)} {mem : ℤ → ℚ} {handle : ℕ → ℤ} {s : State ℚ} {r : ℤ × State ℚ}
    (hloop : Flow.forEach (onPacket x) events (State.init x mem handle) = Flow.next s)
    (hr : run x events (State.init x mem handle) = Flow.ret r) :
    taken program x r.2 = sampleFrames x.fmt x.C (allFrames events) := by
  rcases run_taken x hloop hr with ⟨hdecoded, hpushed⟩
  have hwhole : x.pipeline.feed = feedFrame →
      pushed r.2.log = sampleFrames x.fmt x.C (allFrames events) :=
    fun hfeed => hpushed.trans (stream_feedFrame x hfeed handle _)
  cases program with
  | cut => rw [taken, hdecoded]
  | convert => exact hwhole (by rw [Set.mem_singleton_iff.1 hx]; rfl)
  | volume =>
    rcases hx with ⟨pow, print_stats, volume, hx⟩
    exact hwhole (by rw [hx]; rfl)
  | gradient =>
    rcases hx with ⟨main, sample_rate, hx⟩
    exact hwhole (by rw [hx]; rfl)

/-- A run in which no call fails, over the events of a decoder: the frames that are held back
at the end of the file are not taken. -/
theorem exists_run_taken (program : Program) (d : Decoder σ π ℚ) (s₀ : σ)
    (packets : List (Demuxed π)) :
    ∃ s r, Flow.forEach (onPacket (program.context 1 1 1)) (d.decode s₀ packets).1
        (State.init (program.context 1 1 1) (fun _ => 0) fun _ => 0) = Flow.next s ∧
      run (program.context 1 1 1) (d.decode s₀ packets).1
        (State.init (program.context 1 1 1) (fun _ => 0) fun _ => 0) = Flow.ret r ∧ r.1 = 0 ∧
      (taken program (program.context 1 1 1) r.2).length + totalSamples (d.held s₀ packets) =
        totalSamples (d.output s₀ packets) := by
  rcases run_eq_ret _ (program.context_healthy 1 1 1) le_rfl (d.decode s₀ packets).1
    (fun _ => 0) (fun _ => 0) with ⟨s, hs⟩
  rcases exists_next_of_run _ hs with ⟨s', hs'⟩
  refine ⟨s', (0, s), hs', hs, rfl, ?_⟩
  rw [taken_eq (program.whole_mem 1) hs' hs, length_sampleFrames, Decoder.output,
    totalSamples_append]

/-- What is held back is not taken. -/
theorem TakesAll.held {program : Program} {d : Decoder σ π ℚ} {s₀ : σ}
    {packets : List (Demuxed π)} (h : TakesAll program d s₀ packets) :
    totalSamples (d.held s₀ packets) = 0 := by
  rcases exists_run_taken program d s₀ packets with ⟨s, r, hloop, hr, _, hlen⟩
  have hall := congrArg List.length (h _ (program.whole_mem 1) _ _ s r hloop hr)
  rw [length_sampleFrames] at hall
  omega

/-- **A program takes everything exactly when the decoder holds no sample back at the end of
the file.** -/
theorem takesAll_iff (program : Program) (d : Decoder σ π ℚ) (s₀ : σ)
    (packets : List (Demuxed π)) :
    TakesAll program d s₀ packets ↔ totalSamples (d.held s₀ packets) = 0 := by
  refine ⟨TakesAll.held, ?_⟩
  intro h x hx mem handle s r hloop hr
  have hheld : sampleFrames x.fmt x.C (d.held s₀ packets) = [] := by
    rw [← List.length_eq_zero_iff, length_sampleFrames, h]
  rw [taken_eq hx hloop hr, Decoder.output, sampleFrames_append, hheld, List.append_nil]

end takesAll

/-- A decoder with a delay of one packet. -/
def delayOne : Decoder (List (AVFrame ℚ)) (AVFrame ℚ) ℚ where
  send held frame := ([frame], some held)
  drain held := held

/-- The packet is held back. -/
theorem held_delayOne : totalSamples (delayOne.held [] [.selected (stereoFrame 1)]) = 1 := rfl

/-- One packet of one sample: a run returns 0 and has taken nothing, and no program takes
everything. -/
theorem not_takesAll_delayOne :
    (∃ s r, Flow.forEach (onPacket (Program.convert.context 1 1 1))
        (delayOne.decode [] [.selected (stereoFrame 1)]).1
        (State.init (Program.convert.context 1 1 1) (fun _ => 0) fun _ => 0) = Flow.next s ∧
      run (Program.convert.context 1 1 1) (delayOne.decode [] [.selected (stereoFrame 1)]).1
        (State.init (Program.convert.context 1 1 1) (fun _ => 0) fun _ => 0) = Flow.ret r ∧
      r.1 = 0 ∧ (taken .convert (Program.convert.context 1 1 1) r.2).length + 1 = 1) ∧
    ¬ TakesAll .convert delayOne [] [.selected (stereoFrame 1)] ∧
    ¬ TakesAll .cut delayOne [] [.selected (stereoFrame 1)] ∧
    ¬ TakesAll .volume delayOne [] [.selected (stereoFrame 1)] ∧
    ¬ TakesAll .gradient delayOne [] [.selected (stereoFrame 1)] := by
  have hnot : ∀ program, ¬ TakesAll program delayOne [] [.selected (stereoFrame 1)] := by
    intro program h
    exact absurd (held_delayOne.symm.trans h.held) (by decide)
  exact ⟨exists_run_taken .convert delayOne [] [.selected (stereoFrame 1)], hnot .convert,
    hnot .cut, hnot .volume, hnot .gradient⟩

end AudioCrash.Audio
