import AudioCrash.Audio.Draining

/-!
# The packets of the encoder

An encoder takes frames and gives packets, any number of them after each frame, and the rest
after the null frame. What it has given and `run` has not received yet is a queue. Both loops
over the packets empty the queue, and they share the flag `drop`: the first packet received is
dropped, wherever it comes out, and the others are written in order, each with its time stamps
rescaled once.

## Main definitions

* `Encoder`, `Encoder.output`, `Delivers` — the encoder, and a run that it serves.
* `sent`, `received`, `written` — read off the log of calls.
* `Encoded`, `Running` — the invariant.
* `Muxed`, `run_muxed` — what a run that returns 0 has written.
-/

namespace AudioCrash.Audio

/-! ## Encoders -/

/-- An encoder with its states. -/
structure Encoder (σ α : Type) where
  /-- `avcodec_send_frame`, and the packets that are ready afterwards; none is the null frame. -/
  send : σ → Option (AVFrame α) → σ × List Packet

/-- The packets for frames sent one after the other. -/
def Encoder.output {σ α : Type} (e : Encoder σ α) : σ → List (Option (AVFrame α)) → List Packet
  | _, [] => []
  | s, frame :: frames => (e.send s frame).2 ++ output e (e.send s frame).1 frames

/-! ## Reading the log -/

section log
variable {α : Type}

/-- The frames sent to the encoder. -/
def sent (log : List (Call α)) : List (Option (AVFrame α)) :=
  log.filterMap fun
    | .sendFrame _ frame => some (some frame)
    | .sendNull => some none
    | _ => none

/-- The packets received from the encoder. -/
def received (log : List (Call α)) : List Packet :=
  log.filterMap fun
    | .receivePacket pkt => some pkt
    | _ => none

/-- The packets passed to `av_interleaved_write_frame`. -/
def written (log : List (Call α)) : List Packet :=
  log.filterMap fun
    | .writeFrame pkt => some pkt
    | _ => none

/-- A call that the encoder and the muxer do not take part in. -/
def Call.unsent : Call α → Bool
  | .sendFrame _ _ => false
  | .sendNull => false
  | .receivePacket _ => false
  | .writeFrame _ => false
  | _ => true

variable (log : List (Call α))

@[simp] theorem sent_sendFrame (chunk : List (Sample α)) (frame : AVFrame α) :
    sent (log ++ [.sendFrame chunk frame]) = sent log ++ [some frame] := by simp [sent]
@[simp] theorem sent_sendNull : sent (log ++ [.sendNull]) = sent log ++ [none] := by simp [sent]
@[simp] theorem sent_receivePacket (pkt : Packet) :
    sent (log ++ [.receivePacket pkt]) = sent log := by simp [sent]
@[simp] theorem sent_writeFrame (pkt : Packet) :
    sent (log ++ [.writeFrame pkt]) = sent log := by simp [sent]
@[simp] theorem received_sendFrame (chunk : List (Sample α)) (frame : AVFrame α) :
    received (log ++ [.sendFrame chunk frame]) = received log := by simp [received]
@[simp] theorem received_sendNull :
    received (log ++ [.sendNull]) = received log := by simp [received]
@[simp] theorem received_receivePacket (pkt : Packet) :
    received (log ++ [.receivePacket pkt]) = received log ++ [pkt] := by simp [received]
@[simp] theorem received_writeFrame (pkt : Packet) :
    received (log ++ [.writeFrame pkt]) = received log := by simp [received]
@[simp] theorem written_sendFrame (chunk : List (Sample α)) (frame : AVFrame α) :
    written (log ++ [.sendFrame chunk frame]) = written log := by simp [written]
@[simp] theorem written_sendNull :
    written (log ++ [.sendNull]) = written log := by simp [written]
@[simp] theorem written_receivePacket (pkt : Packet) :
    written (log ++ [.receivePacket pkt]) = written log := by simp [written]
@[simp] theorem written_writeFrame (pkt : Packet) :
    written (log ++ [.writeFrame pkt]) = written log ++ [pkt] := by simp [written]

end log

/-! ## The invariant -/

section run
variable {σ α : Type} (x : Context α) (e : Encoder σ α) (s₀ : σ)

/-- `avcodec_receive_packet` delivers what the encoder has given and is not received yet. -/
def Delivers (ffmpeg : Ffmpeg α) : Prop :=
  ∀ log, ffmpeg.packets log = (e.output s₀ (sent log)).drop (received log).length

/-- The packet that is written for one of the encoder. -/
def Context.stamp (pkt : Packet) : Packet :=
  x.ffmpeg.rescaleTs { pkt with streamIndex := x.streamIndex }

/-- The first packet received is dropped, and the others are written. -/
structure DropsFirst (s : State α) : Prop where
  drop : s.drop = (received s.log).isEmpty
  written : written s.log = (received s.log).tail.map x.stamp

/-- The packets received are the first of those of the encoder. -/
structure Encoded (s : State α) : Prop extends DropsFirst x s where
  isPrefix : received s.log <+: e.output s₀ (sent s.log)

/-- The encoder and the muxer are left alone between `s` and `s'`. -/
structure Unsent (s s' : State α) : Prop where
  drop : s'.drop = s.drop
  sent : sent s'.log = sent s.log
  received : received s'.log = received s.log
  written : written s'.log = written s.log
  handed : handed s'.log = handed s.log

variable {x e s₀} {s s' s'' : State α}

theorem Unsent.refl (s : State α) : Unsent s s := ⟨rfl, rfl, rfl, rfl, rfl⟩

theorem Unsent.trans (h : Unsent s s') (h' : Unsent s' s'') : Unsent s s'' :=
  ⟨h'.drop.trans h.drop, h'.sent.trans h.sent, h'.received.trans h.received,
    h'.written.trans h.written, h'.handed.trans h.handed⟩

theorem Unsent.call {c : Call α} (hc : c.unsent = true) (s : State α) : Unsent s (s.call c) := by
  cases c <;> first
    | exact absurd hc Bool.false_ne_true
    | exact ⟨rfl, by simp [Audio.sent], by simp [Audio.received], by simp [Audio.written],
        by simp [Audio.handed]⟩

theorem Encoded.unsent (h : Encoded x e s₀ s) (ha : Unsent s s') : Encoded x e s₀ s' where
  drop := by rw [ha.drop, ha.received, h.drop]
  written := by rw [ha.written, ha.received, h.written]
  isPrefix := by rw [ha.received, ha.sent]; exact h.isPrefix

/-- **One packet of the encoder**: it is dropped when it is the first. -/
theorem receivePacket_dropsFirst {code : ℤ} (hcode : code ≠ 0) (pkt : Packet)
    (h : DropsFirst x s) :
    Flow.Holds (fun s' => DropsFirst x s' ∧ received s'.log = received s.log ++ [pkt] ∧
        sent s'.log = sent s.log ∧ handed s'.log = handed s.log)
      (fun r => r.1 ≠ 0) (receivePacket x code pkt s) := by
  have hdrop := h.drop
  have hwritten := h.written
  cases hreceived : received s.log with
  | nil =>
    rw [hreceived, List.isEmpty_nil] at hdrop
    rw [hreceived, List.tail_nil, List.map_nil] at hwritten
    simp only [receivePacket, State.call_drop, hdrop, Bool.not_true, Bool.false_eq_true, if_false]
    refine ⟨⟨?_, ?_⟩, ?_, ?_, ?_⟩
    · simp [hreceived]
    · simp [hreceived, hwritten]
    · simp [hreceived]
    · simp
    · exact handed_quiet rfl _
  | cons first rest =>
    rw [hreceived, List.isEmpty_cons] at hdrop
    rw [hreceived, List.tail_cons] at hwritten
    simp only [receivePacket, State.call_drop, hdrop, Bool.not_false, if_true]
    split_ifs
    · refine ⟨⟨?_, ?_⟩, ?_, ?_, ?_⟩
      · simp only [State.call_drop, State.call_log, received_writeFrame, received_receivePacket,
          hreceived, hdrop]
        rfl
      · simp only [State.call_log, written_writeFrame, written_receivePacket, received_writeFrame,
          received_receivePacket, hreceived, hwritten, List.cons_append, List.tail_cons,
          List.map_append]
        rfl
      · simp only [State.call_log, received_writeFrame, received_receivePacket, hreceived]
      · simp only [State.call_log, sent_writeFrame, sent_receivePacket]
      · exact (handed_quiet rfl _).trans (handed_quiet rfl _)
    · exact hcode

/-- The packets that are ready. -/
theorem forEach_receivePacket {code : ℤ} (hcode : code ≠ 0) (pkts : List Packet)
    (h : DropsFirst x s) :
    Flow.Holds (fun s' => DropsFirst x s' ∧ received s'.log = received s.log ++ pkts ∧
        sent s'.log = sent s.log ∧ handed s'.log = handed s.log)
      (fun r => r.1 ≠ 0) (Flow.forEach (receivePacket x code) pkts s) := by
  refine Flow.holds_forEach (fun done s' => DropsFirst x s' ∧
    received s'.log = received s.log ++ done ∧ sent s'.log = sent s.log ∧
    handed s'.log = handed s.log) pkts (d := []) ⟨h, by simp, rfl, rfl⟩ ?_
  intro done pkt rest s' _ hs'
  rcases hs' with ⟨hs', hreceived, hsent, hhanded⟩
  refine (receivePacket_dropsFirst hcode pkt hs').imp_next ?_
  rintro s'' ⟨hs'', hreceived', hsent', hhanded'⟩
  refine ⟨hs'', ?_, hsent'.trans hsent, hhanded'.trans hhanded⟩
  rw [hreceived', hreceived, List.append_assoc]

/-- What holds when the queue of the encoder has been emptied. -/
structure Emptied (x : Context α) (e : Encoder σ α) (s₀ : σ) (s s' : State α) : Prop
    extends DropsFirst x s' where
  received : received s'.log = e.output s₀ (Audio.sent s.log)
  sent : Audio.sent s'.log = Audio.sent s.log
  handed : Audio.handed s'.log = Audio.handed s.log

theorem Emptied.encoded (h : Emptied x e s₀ s s') : Encoded x e s₀ s' where
  toDropsFirst := h.toDropsFirst
  isPrefix := ⟨[], by rw [List.append_nil, h.received, h.sent]⟩

/-- **The loop over the packets of the encoder empties its queue.** -/
theorem receivePackets_emptied (hdelivers : Delivers e s₀ x.ffmpeg) {code : ℤ} (hcode : code ≠ 0)
    (h : Encoded x e s₀ s) :
    Flow.Holds (Emptied x e s₀ s) (fun r => r.1 ≠ 0) (receivePackets x code s) := by
  refine (forEach_receivePacket hcode _ h.toDropsFirst).imp_next ?_
  rintro s' ⟨hs', hreceived, hsent, hhanded⟩
  refine ⟨hs', ?_, hsent, hhanded⟩
  rw [hreceived, hdelivers s.log]
  rcases h.isPrefix with ⟨rest, hrest⟩
  rw [← hrest, List.drop_left]

/-! ## The steps -/

/-- Sending one more frame leaves what has been received in place. -/
theorem Encoder.output_append (e : Encoder σ α) (s : σ)
    (frames frames' : List (Option (AVFrame α))) :
    e.output s frames <+: e.output s (frames ++ frames') := by
  induction frames generalizing s with
  | nil => exact List.nil_prefix
  | cons frame frames ih =>
    simp only [Encoder.output, List.cons_append]
    exact (List.prefix_append_right_inj _).2 (ih _)

/-- Before the null frame, only chunks are sent. -/
structure Running (x : Context α) (e : Encoder σ α) (s₀ : σ) (s : State α) : Prop
    extends Encoded x e s₀ s where
  sent : sent s.log = (handed s.log).map fun h => some h.2

theorem Running.unsent (h : Running x e s₀ s) (ha : Unsent s s') : Running x e s₀ s' where
  toEncoded := h.toEncoded.unsent ha
  sent := by rw [ha.sent, ha.handed, h.sent]

theorem Running.emptied (h : Running x e s₀ s) (he : Emptied x e s₀ s s') :
    Running x e s₀ s' where
  toEncoded := he.encoded
  sent := by rw [he.sent, he.handed, h.sent]

theorem push_running (f : AVFrame α) (h : Running x e s₀ s) :
    Flow.Holds (Running x e s₀) (fun r => r.1 ≠ 0) (push x f s) := by
  simp only [push]
  split_ifs
  · refine h.unsent ?_
    exact (Unsent.call (c := .push _) rfl s).trans ⟨rfl, rfl, rfl, rfl, rfl⟩
  · exact (by decide : (-18000 : ℤ) ≠ 0)

theorem pull_unsent (x : Context α) (s : State α) : Unsent s (pull x s).2 :=
  (Unsent.call (c := .pull (s.fifo.take x.F)) rfl s).trans ⟨rfl, rfl, rfl, rfl, rfl⟩

/-- One more frame. -/
theorem Running.sendFrame (h : Running x e s₀ s) (chunk : List (Sample α)) (frame : AVFrame α) :
    Running x e s₀ (s.call (.sendFrame chunk frame)) := by
  refine ⟨⟨⟨?_, ?_⟩, ?_⟩, ?_⟩
  · rw [State.call_log, received_sendFrame]
    exact h.drop
  · rw [State.call_log, received_sendFrame, written_sendFrame]
    exact h.written
  · rw [State.call_log, received_sendFrame, sent_sendFrame]
    exact h.isPrefix.trans (e.output_append s₀ _ _)
  · rw [State.call_log, sent_sendFrame, handed_sendFrame, h.sent, List.map_append]
    rfl

/-- The null frame. -/
theorem Encoded.sendNull (h : Encoded x e s₀ s) : Encoded x e s₀ (s.call .sendNull) := by
  refine ⟨⟨?_, ?_⟩, ?_⟩
  · rw [State.call_log, received_sendNull]
    exact h.drop
  · rw [State.call_log, received_sendNull, written_sendNull]
    exact h.written
  · rw [State.call_log, received_sendNull, sent_sendNull]
    exact h.isPrefix.trans (e.output_append s₀ _ _)

/-- Scaling and filling in a chunk sends nothing. -/
theorem filled_unsent (x : Context α) (chunk : List (Sample α)) (s : State α) :
    Unsent s (filled x chunk s) :=
  (Unsent.call (c := .fill) rfl s).trans ⟨rfl, rfl, rfl, rfl, rfl⟩

/-- A chunk is filled in and sent. -/
theorem sendChunk_running {fillCode sendCode : ℤ} (hfill : fillCode ≠ 0) (hsend : sendCode ≠ 0)
    (chunk : List (Sample α)) (h : Running x e s₀ s) :
    Flow.Holds (Running x e s₀) (fun r => r.1 ≠ 0) (sendChunk x fillCode sendCode chunk s) :=
  sendChunk_holds hfill ((h.unsent (filled_unsent x chunk s)).sendFrame chunk _) hsend

/-- One chunk of the drain loop. -/
theorem drainStep_running (hdelivers : Delivers e s₀ x.ffmpeg) (h : Running x e s₀ s) :
    Flow.Holds (Running x e s₀) (fun r => r.1 ≠ 0) (drainStep x s) := by
  refine Flow.Holds.bind (sendChunk_running (by decide) (by decide) _ (h.unsent (pull_unsent x s)))
    fun s' hs' => ?_
  exact (receivePackets_emptied hdelivers (by decide) hs'.toEncoded).imp_next
    fun _ he => hs'.emptied he

theorem drain_running (hdelivers : Delivers e s₀ x.ffmpeg) (h : Running x e s₀ s) :
    Flow.Holds (Running x e s₀) (fun r => r.1 ≠ 0) (drain x s) :=
  (drain_of_step (fun _ _ hs => drainStep_running hdelivers hs) h).imp_next fun _ hs => hs.1

/-- One packet of the input. -/
theorem onPacket_running (hdelivers : Delivers e s₀ x.ffmpeg) (event : Event α)
    (h : Running x e s₀ s) :
    Flow.Holds (Running x e s₀) (fun r => r.1 ≠ 0) (onPacket x event s) := by
  have hread := h.unsent (Unsent.call (c := .readFrame) rfl s)
  have hunref : ∀ s, Running x e s₀ s → Running x e s₀ (s.call .unref) :=
    fun s hs => hs.unsent (Unsent.call rfl s)
  cases event with
  | other => exact hunref _ hread
  | rejected => exact hunref _ hread
  | accepted frames =>
    refine Flow.Holds.bind (P := Running x e s₀) (Flow.Holds.bind
      (Flow.holds_forEach_const frames hread fun f s hs => push_running f hs) fun s hs => ?_)
      fun s hs => hunref s hs
    split_ifs
    · exact drain_running hdelivers hs
    · exact hs

/-! ## The whole run -/

/-- What a run that returns 0 has written: all that the encoder has given for the chunks and
the null frame, but the first packet. -/
structure Muxed (x : Context α) (e : Encoder σ α) (s₀ : σ) (s : State α) : Prop where
  sent : sent s.log = ((handed s.log).map fun h => some h.2) ++ [none]
  written : written s.log = (e.output s₀ (Audio.sent s.log)).tail.map x.stamp

theorem Muxed.unsent (h : Muxed x e s₀ s) (ha : Unsent s s') : Muxed x e s₀ s' where
  sent := by rw [ha.sent, ha.handed, h.sent]
  written := by rw [ha.sent, ha.written, h.written]

/-- After the null frame the queue of the encoder is emptied for good. -/
theorem Running.muxed (h : Running x e s₀ s) (he : Emptied x e s₀ (s.call .sendNull) s') :
    Muxed x e s₀ s' := by
  have hsent := he.sent
  have hhanded := he.handed
  have hreceived := he.received
  rw [State.call_log, sent_sendNull, h.sent] at hsent hreceived
  rw [State.call_log, handed_quiet rfl] at hhanded
  refine ⟨by rw [hsent, hhanded], ?_⟩
  rw [he.written, hreceived, hsent]

/-- The tail chunk, and the flush. -/
theorem finish_muxed (hdelivers : Delivers e s₀ x.ffmpeg) (h : Running x e s₀ s) :
    Flow.Holds (fun _ => False) (fun r => r.1 = 0 → Muxed x e s₀ r.2) (finish x s) := by
  have hpull := h.unsent (pull_unsent x s)
  have hleft : ∀ {step : Step α} {D : State α → Prop}, Flow.Holds D (fun r => r.1 ≠ 0) step →
      Flow.Holds D (fun r => r.1 = 0 → Muxed x e s₀ r.2) step :=
    fun hstep => hstep.imp_ret fun _ hr hzero => absurd hzero hr
  refine Flow.Holds.bind (P := Running x e s₀) (hleft ?tail) fun s hs =>
    Flow.Holds.bind (P := fun s' => s' = s.call .sendNull) ?null fun s' hnull =>
    Flow.Holds.bind (P := Emptied x e s₀ s') (hleft ?packets) fun s'' he => ?trailer
  case tail =>
    split_ifs
    · exact sendChunk_running (by decide) (by decide) _ hpull
    · exact hpull
  case null =>
    split_ifs
    · rfl
    · exact fun hzero => absurd hzero (by decide : (-24000 : ℤ) ≠ 0)
  case packets =>
    rw [hnull]
    exact receivePackets_emptied hdelivers (by decide) hs.toEncoded.sendNull
  case trailer =>
    subst hnull
    split_ifs
    · exact fun _ => (hs.muxed he).unsent (Unsent.call (c := .writeTrailer) rfl s'')
    · exact fun hzero => absurd hzero (by decide : (-26000 : ℤ) ≠ 0)

theorem Running.init (mem : ℤ → α) (handle : ℕ → ℤ) :
    Running x e s₀ (State.init x mem handle) :=
  ⟨⟨⟨rfl, rfl⟩, List.nil_prefix⟩, rfl⟩

/-- **Every packet of the encoder but the first is written, once and in order**, in a run that
returns 0. -/
theorem run_muxed (hdelivers : Delivers e s₀ x.ffmpeg) (events : List (Event α)) (mem : ℤ → α)
    (handle : ℕ → ℤ) (hr : run x events (State.init x mem handle) = Flow.ret (0, s)) :
    Muxed x e s₀ s := by
  have hrun : Flow.Holds (fun _ => False) (fun r => r.1 = 0 → Muxed x e s₀ r.2)
      (run x events (State.init x mem handle)) := by
    have hinit : Running x e s₀ (State.init x mem handle) := Running.init mem handle
    have hloop := Flow.holds_forEach_const events hinit
      fun event s hs => onPacket_running hdelivers event hs
    refine Flow.Holds.bind (hloop.imp_ret fun _ hr hzero => absurd hzero hr)
      fun s hs => Flow.Holds.bind (P := Running x e s₀) ?_ fun s hs => finish_muxed hdelivers hs
    split_ifs
    · exact hs
    · exact (drain_running hdelivers hs).imp_ret fun _ hr hzero => absurd hzero hr
  rw [hr, Flow.holds_ret] at hrun
  exact hrun rfl

end run

/-- An encoder with a delay of one frame: a packet tells the length of its chunk. -/
def delayFrame : Encoder (Option Packet) ℚ where
  send held frame := (frame.map fun f => ⟨f.nbSamples, 0, 0, 0, 0⟩, held.toList)

/-- Blocks of two samples, with that encoder. -/
def delayContext : Context ℚ :=
  { Program.convert.context 1 2 5 with
    ffmpeg :=
      { (Program.convert.context 1 2 5).ffmpeg with
        packets := fun log =>
          (delayFrame.output none (sent log)).drop (received log).length } }

/-- Five samples. -/
theorem run_muxed_delay :
    ∃ s, run delayContext [.accepted [stereoFrame 5]]
        (State.init delayContext (fun _ => 0) fun _ => 0) = Flow.ret (0, s) ∧
      Muxed delayContext delayFrame none s := by
  have hhealthy : delayContext.ffmpeg.Healthy := by
    constructor <;> intro log <;> rfl
  rcases run_eq_ret delayContext hhealthy (by decide) [.accepted [stereoFrame 5]] (fun _ => 0)
    (fun _ => 0) with ⟨s, hs⟩
  exact ⟨s, hs, run_muxed (fun _ => rfl) _ _ _ hs⟩

end AudioCrash.Audio
