import AudioCrash.Audio.Pipeline

/-!
# The chunks handed to the encoder

The samples pushed into the resampler come out in blocks of `audio_output_frame_size`
samples. The invariant is that the chunks handed over are full, that they and the queue
together are what was pushed, and that the queue is not empty once a chunk has been taken
out. At most one block is in the queue whenever the drain loop is left, so that the single
pull at the end empties it.

## Main definitions

* `pushed`, `handed`, `chunks` — read off the log of calls.
* `Context.stream` — the samples that a list of decoded frames pushes.
* `Fits` — a chunk lies in the planes of the buffer when it is handed over.
* `sendChunk_holds` — what handing over a chunk can do.
* `Inv`, `Done` — the invariant, and what holds of a result.
* `run_done` — every run.
-/

namespace AudioCrash.Audio

open Grid Segment

/-! ## Reading the log -/

section log
variable {α : Type}

/-- The samples read by the pushes. -/
def pushed (log : List (Call α)) : List (Sample α) :=
  log.flatMap fun
    | .push xs => xs
    | _ => []

/-- The chunks handed to the encoder, each with the frame it is handed over in. -/
def handed (log : List (Call α)) : List (List (Sample α) × AVFrame α) :=
  log.filterMap fun
    | .sendFrame chunk frame => some (chunk, frame)
    | _ => none

/-- The chunks handed to the encoder. -/
def chunks (log : List (Call α)) : List (List (Sample α)) := (handed log).map Prod.fst

@[simp] theorem pushed_nil : pushed ([] : List (Call α)) = [] := rfl
@[simp] theorem handed_nil : handed ([] : List (Call α)) = [] := rfl
@[simp] theorem pushed_push (log : List (Call α)) (xs : List (Sample α)) :
    pushed (log ++ [.push xs]) = pushed log ++ xs := by simp [pushed]
@[simp] theorem handed_sendFrame (log : List (Call α)) (chunk : List (Sample α))
    (frame : AVFrame α) :
    handed (log ++ [.sendFrame chunk frame]) = handed log ++ [(chunk, frame)] := by
  simp [handed]

/-- A call that neither pushes nor hands over a chunk. -/
def Call.quiet : Call α → Bool
  | .push _ => false
  | .sendFrame _ _ => false
  | _ => true

theorem pushed_quiet {c : Call α} (h : c.quiet = true) (log : List (Call α)) :
    pushed (log ++ [c]) = pushed log := by
  cases c <;> first | exact absurd h Bool.false_ne_true | simp [pushed]

theorem handed_quiet {c : Call α} (h : c.quiet = true) (log : List (Call α)) :
    handed (log ++ [c]) = handed log := by
  cases c <;> first | exact absurd h Bool.false_ne_true | simp [handed]

@[simp] theorem pushed_sendFrame (log : List (Call α)) (chunk : List (Sample α))
    (frame : AVFrame α) : pushed (log ++ [.sendFrame chunk frame]) = pushed log := by
  simp [pushed]
@[simp] theorem handed_push (log : List (Call α)) (xs : List (Sample α)) :
    handed (log ++ [.push xs]) = handed log := by simp [handed]

end log

/-! ## The samples of the stream -/

section run
variable {α : Type} (x : Context α)

/-- What one decoded frame pushes, and the variables after it. -/
def Context.feedStep (s : CutState × List (Sample α)) (f : AVFrame α) :
    CutState × List (Sample α) :=
  let (feed, fed) := x.pipeline.feed x.fmt x.C s.1 f
  (feed, s.2 ++ f.samples x.fmt x.C fed.inCount.toNat fed.handle)

/-- What a list of decoded frames pushes. -/
def Context.stream (handle : ℕ → ℤ) (frames : List (AVFrame α)) :
    CutState × List (Sample α) :=
  frames.foldl x.feedStep (CutState.init handle, [])

/-- The frames of the packets. -/
def allFrames (events : List (Event α)) : List (AVFrame α) := events.flatMap Event.frames

@[simp] theorem Context.stream_nil (handle : ℕ → ℤ) :
    x.stream handle [] = (CutState.init handle, []) := rfl
@[simp] theorem Context.stream_concat (handle : ℕ → ℤ) (frames : List (AVFrame α))
    (f : AVFrame α) :
    x.stream handle (frames ++ [f]) = x.feedStep (x.stream handle frames) f := by
  simp [Context.stream]
@[simp] theorem allFrames_concat (events : List (Event α)) (e : Event α) :
    allFrames (events ++ [e]) = allFrames events ++ e.frames := by simp [allFrames]

/-- The variables after a frame do not depend on what was pushed before. -/
theorem Context.feedStep_eq (s : CutState × List (Sample α)) (f : AVFrame α) :
    x.feedStep s f = ((x.feedStep (s.1, []) f).1, s.2 ++ (x.feedStep (s.1, []) f).2) := by
  simp [Context.feedStep]

/-! ## The steps -/

/-- The chunk lies in the planes of `buffer`, every value scaled by the program, and
`encode_frame` has its length and the layout of a buffer of that length. -/
structure Fits (h : List (Sample α) × AVFrame α) : Prop where
  nbSamples : h.2.nbSamples = h.1.length
  data : h.2.data = planeAt h.1.length
  planes : ∃ args, ∀ p < x.C, h.2.read 4 h.1.length (planeAt x.F p) =
    h.1.map fun v => x.pipeline.gain args (v p)

/-- Calls that neither push, pull nor hand over a chunk lead from `s` to `s'`. -/
structure Quiet (s s' : State α) : Prop where
  fifo : s'.fifo = s.fifo
  feed : s'.feed = s.feed
  mem : s'.mem = s.mem
  pushed : pushed s'.log = pushed s.log
  handed : handed s'.log = handed s.log

theorem Quiet.refl (s : State α) : Quiet s s := ⟨rfl, rfl, rfl, rfl, rfl⟩

theorem Quiet.trans {s s' s'' : State α} (h : Quiet s s') (h' : Quiet s' s'') : Quiet s s'' :=
  ⟨h'.fifo.trans h.fifo, h'.feed.trans h.feed, h'.mem.trans h.mem, h'.pushed.trans h.pushed,
    h'.handed.trans h.handed⟩

theorem Quiet.call {c : Call α} (hc : c.quiet = true) (s : State α) : Quiet s (s.call c) :=
  ⟨rfl, rfl, rfl, pushed_quiet hc s.log, handed_quiet hc s.log⟩

theorem receivePacket_quiet (code : ℤ) (pkt : Packet) (s : State α) :
    Flow.Holds (Quiet s) (fun r => r.1 = code ∧ Quiet s r.2) (receivePacket x code pkt s) := by
  have hreceive : Quiet s (s.call (.receivePacket pkt)) := Quiet.call rfl s
  have hwrite : ∀ pkt' : Packet, Quiet s ((s.call (.receivePacket pkt)).call (.writeFrame pkt')) :=
    fun pkt' => hreceive.trans (Quiet.call rfl _)
  simp only [receivePacket]
  split_ifs
  · exact hwrite _
  · exact ⟨rfl, hwrite _⟩
  · exact ⟨hreceive.fifo, hreceive.feed, hreceive.mem, hreceive.pushed, hreceive.handed⟩

/-- The encoder's packets are received and written without touching the samples. -/
theorem receivePackets_quiet (code : ℤ) (s : State α) :
    Flow.Holds (Quiet s) (fun r => r.1 = code ∧ Quiet s r.2) (receivePackets x code s) := by
  refine Flow.holds_forEach_const _ (Quiet.refl s) ?_
  intro pkt s' hs'
  exact (receivePacket_quiet x code pkt s').imp (fun _ h => hs'.trans h)
    fun _ h => ⟨h.1, hs'.trans h.2⟩

/-- The frame `f` has been pushed between `s` and `s'`. -/
structure Pushed (f : AVFrame α) (s s' : State α) : Prop where
  feed : s'.feed = (x.feedStep (s.feed, []) f).1
  fifo : s'.fifo = s.fifo ++ (x.feedStep (s.feed, []) f).2
  mem : s'.mem = s.mem
  pushed : pushed s'.log = pushed s.log ++ (x.feedStep (s.feed, []) f).2
  handed : handed s'.log = handed s.log

/-- A frame is pushed, or the run fails. -/
theorem push_pushed (f : AVFrame α) (s : State α) :
    Flow.Holds (Pushed x f s) (fun r => r.1 = -18000 ∧ handed r.2.log = handed s.log)
      (push x f s) := by
  simp only [push]
  split_ifs
  · constructor <;> simp [Context.feedStep]
  · exact ⟨rfl, rfl⟩

/-- The chunk lies in the planes of `buffer`. -/
structure Loaded (chunk : List (Sample α)) (s : State α) : Prop where
  length_le : chunk.length ≤ x.F
  cell : ∀ p < x.C, ∀ i (hi : i < chunk.length), s.mem (pcm (planeAt x.F) p i) = chunk[i] p

/-- A pull takes a block out of the queue and writes it to the planes. -/
theorem pull_loaded (s : State α) : Loaded x (pull x s).1 (pull x s).2 := by
  have hle : (s.fifo.take x.F).length ≤ x.F := List.length_take_le _ _
  refine ⟨hle, ?_⟩
  intro p hp i hi
  have hi' : i < (s.fifo.take x.F).length := hi
  have hcell := updateGrid_cell x.C (s.fifo.take x.F).length (pcm (planeAt x.F))
    (fun p i old => ((s.fifo.take x.F)[i]?.map fun v => v p).getD old) s.mem
    (planesApart_planeAt x.C hle) hp hi'
  rw [List.getElem?_eq_getElem hi', Option.map_some, Option.getD_some] at hcell
  exact hcell

/-- What `fillAudioFrame` can do. -/
theorem fillAudioFrame_eq (s : State α) :
    fillAudioFrame x s = none ∨
      fillAudioFrame x s = some { s.call .fill with data := planeAt s.nbSamples } := by
  simp only [fillAudioFrame]
  split_ifs
  · exact Or.inl rfl
  · exact Or.inr rfl
  · exact Or.inl rfl

/-- The chunk is scaled, before it is handed to the encoder. -/
def tuned (chunk : List (Sample α)) (s : State α) : State α :=
  { s with
    mem := x.pipeline.tune s.args (planeAt x.F) chunk.length x.C s.mem
    pos := s.pos + chunk.length
    nbSamples := chunk.length }

/-- The scaled chunk is filled in. -/
def filled (chunk : List (Sample α)) (s : State α) : State α :=
  { (tuned x chunk s).call .fill with data := planeAt chunk.length }

/-- The frame that is handed over. -/
def frameOf (chunk : List (Sample α)) (s : State α) : AVFrame α :=
  ⟨chunk.length, planeAt chunk.length, (tuned x chunk s).mem⟩

/-- The chunk has been handed over. -/
def handedOver (chunk : List (Sample α)) (s : State α) : State α :=
  (filled x chunk s).call (.sendFrame chunk (frameOf x chunk s))

@[simp] theorem pushed_handedOver (chunk : List (Sample α)) (s : State α) :
    pushed (handedOver x chunk s).log = pushed s.log := by
  change pushed (s.log ++ [.fill] ++ [.sendFrame chunk (frameOf x chunk s)]) = pushed s.log
  rw [pushed_sendFrame, pushed_quiet rfl]

@[simp] theorem handed_handedOver (chunk : List (Sample α)) (s : State α) :
    handed (handedOver x chunk s).log = handed s.log ++ [(chunk, frameOf x chunk s)] := by
  change handed (s.log ++ [.fill] ++ [.sendFrame chunk (frameOf x chunk s)]) = _
  rw [handed_sendFrame, handed_quiet rfl]

variable {x} in
/-- What `sendChunk` can do: the chunk is not filled in, or it is handed over. -/
theorem sendChunk_holds {P : State α → Prop} {Q : ℤ × State α → Prop} {fillCode sendCode : ℤ}
    {chunk : List (Sample α)} {s : State α} (hfill : Q (fillCode, tuned x chunk s))
    (hnext : P (handedOver x chunk s)) (hsend : Q (sendCode, handedOver x chunk s)) :
    Flow.Holds P Q (sendChunk x fillCode sendCode chunk s) := by
  simp only [sendChunk]
  rcases fillAudioFrame_eq x (tuned x chunk s) with hnone | hsome
  · simp only [tuned] at hnone
    rw [hnone]
    exact hfill
  · simp only [tuned] at hsome
    rw [hsome]
    dsimp only
    split_ifs
    · exact hnext
    · exact hsend

/-- A loaded chunk that has been scaled in place fits. -/
theorem Loaded.fits_tune {chunk : List (Sample α)} {s : State α} (h : Loaded x chunk s) :
    Fits x (chunk, ⟨chunk.length, planeAt chunk.length,
      x.pipeline.tune s.args (planeAt x.F) chunk.length x.C s.mem⟩) := by
  refine ⟨rfl, rfl, s.args, ?_⟩
  intro p hp
  apply List.ext_getElem
  · simp
  · intro i _ hi
    have hi : i < chunk.length := by simpa using hi
    have hcell := x.pipeline.tune_cell s.args s.mem (planesApart_planeAt x.C h.length_le) hp hi
    rw [h.cell p hp i hi] at hcell
    simpa [AVFrame.read, pcm, Int.mul_comm] using hcell

/-- The chunk has been scaled in place and handed over between `s` and `s'`. -/
structure Sent (chunk : List (Sample α)) (s s' : State α) : Prop where
  fifo : s'.fifo = s.fifo
  feed : s'.feed = s.feed
  mem : ∃ args, s'.mem = x.pipeline.tune args (planeAt x.F) chunk.length x.C s.mem
  pushed : pushed s'.log = pushed s.log
  handed : ∃ frame, Fits x (chunk, frame) ∧ frame.mem = s'.mem ∧
    handed s'.log = handed s.log ++ [(chunk, frame)]

theorem Sent.quiet {x : Context α} {chunk : List (Sample α)} {s s' s'' : State α}
    (h : Sent x chunk s s') (hq : Quiet s' s'') : Sent x chunk s s'' := by
  rcases h.handed with ⟨frame, hfits, hmem, hhanded⟩
  refine ⟨hq.fifo.trans h.fifo, hq.feed.trans h.feed, ?_, hq.pushed.trans h.pushed, frame, hfits,
    hmem.trans hq.mem.symm, hq.handed.trans hhanded⟩
  rw [hq.mem]
  exact h.mem

/-- **A loaded chunk is handed over as it is**, or the run fails. -/
theorem sendChunk_sent (fillCode sendCode : ℤ) {chunk : List (Sample α)} {s : State α}
    (h : Loaded x chunk s) :
    Flow.Holds (Sent x chunk s)
      (fun r => (r.1 = fillCode ∧ handed r.2.log = handed s.log) ∨
        (r.1 = sendCode ∧ Sent x chunk s r.2))
      (sendChunk x fillCode sendCode chunk s) := by
  have hsent : Sent x chunk s (handedOver x chunk s) :=
    ⟨rfl, rfl, ⟨s.args, rfl⟩, pushed_handedOver x chunk s, frameOf x chunk s, h.fits_tune, rfl,
      handed_handedOver x chunk s⟩
  exact sendChunk_holds (Or.inl ⟨rfl, rfl⟩) hsent (Or.inr ⟨rfl, hsent⟩)

/-! ## The invariant -/

/-- The invariant of the loops, after the decoded frames that have pushed `fed`. -/
structure Inv (fed : CutState × List (Sample α)) (s : State α) : Prop where
  feed : s.feed = fed.1
  pushed : pushed s.log = fed.2
  queue : (chunks s.log).flatten ++ s.fifo = fed.2
  full : ∀ h ∈ handed s.log, h.1.length = x.F
  rest : s.fifo = [] → handed s.log = []
  fits : ∀ h ∈ handed s.log, Fits x h

/-- A run that is left before its end has handed over full chunks. -/
structure Failed (r : ℤ × State α) : Prop where
  code : r.1 ≠ 0
  full : ∀ h ∈ handed r.2.log, h.1.length = x.F
  fits : ∀ h ∈ handed r.2.log, Fits x h

variable {x}
variable {fed : CutState × List (Sample α)} {s s' : State α}

theorem Inv.init (mem : ℤ → α) (handle : ℕ → ℤ) :
    Inv x (x.stream handle []) (State.init x mem handle) := by
  constructor <;> simp [State.init, chunks]

theorem Inv.quiet (h : Inv x fed s) (hq : Quiet s s') : Inv x fed s' where
  feed := hq.feed.trans h.feed
  pushed := hq.pushed.trans h.pushed
  queue := by
    rw [chunks, hq.handed, hq.fifo]
    exact h.queue
  full := by
    rw [hq.handed]
    exact h.full
  rest := by
    rw [hq.handed, hq.fifo]
    exact h.rest
  fits := by
    rw [hq.handed]
    exact h.fits

theorem Inv.failed (h : Inv x fed s) {code : ℤ} (hcode : code ≠ 0)
    (hs : handed s'.log = handed s.log) : Failed x (code, s') := by
  refine ⟨hcode, ?_, ?_⟩
  · rw [hs]
    exact h.full
  · rw [hs]
    exact h.fits

/-- A pushed frame joins the queue. -/
theorem Inv.pushed_frame (h : Inv x fed s) {f : AVFrame α} (hs : Pushed x f s s') :
    Inv x (x.feedStep fed f) s' := by
  rw [Context.feedStep_eq, ← h.feed]
  refine ⟨hs.feed, ?_, ?_, ?_, ?_, ?_⟩
  · rw [hs.pushed, h.pushed]
  · rw [chunks, hs.handed, hs.fifo, ← List.append_assoc, ← chunks, h.queue]
  · rw [hs.handed]
    exact h.full
  · intro hnil
    rw [hs.fifo] at hnil
    rw [hs.handed]
    exact h.rest (List.append_eq_nil_iff.1 hnil).1
  · rw [hs.handed]
    exact h.fits

theorem push_inv (h : Inv x fed s) (f : AVFrame α) :
    Flow.Holds (Inv x (x.feedStep fed f)) (Failed x) (push x f s) := by
  refine (push_pushed x f s).imp (fun _ hs => h.pushed_frame hs) ?_
  rintro ⟨code, s'⟩ ⟨rfl, hs⟩
  exact h.failed (by decide) hs

section pull
variable (x s)

@[simp] theorem pull_fst : (pull x s).1 = s.fifo.take x.F := rfl
@[simp] theorem pull_fifo : (pull x s).2.fifo = s.fifo.drop x.F := rfl
@[simp] theorem pull_pushed : pushed (pull x s).2.log = pushed s.log := pushed_quiet rfl _
@[simp] theorem pull_handed : handed (pull x s).2.log = handed s.log := handed_quiet rfl _

end pull

/-- Once the block pulled has been handed over, the handed chunks and the rest of the queue
are still what was pushed. -/
theorem Inv.queue_sent (h : Inv x fed s) (hs : Sent x (pull x s).1 (pull x s).2 s') :
    (chunks s'.log).flatten ++ s'.fifo = fed.2 := by
  rcases hs.handed with ⟨frame, _, _, hhanded⟩
  rw [chunks, hhanded, hs.fifo, pull_fifo, pull_handed, ← h.queue]
  simp [chunks]

/-- After a pull and a handing over, a chunk has been handed over before, or is the one pulled. -/
theorem mem_handed_of_sent (hs : Sent x (pull x s).1 (pull x s).2 s')
    {c : List (Sample α) × AVFrame α} (hc : c ∈ handed s'.log) :
    c ∈ handed s.log ∨ c.1 = s.fifo.take x.F ∧ Fits x c ∧ c.2.mem = s'.mem := by
  rcases hs.handed with ⟨frame, hfits, hmem, hhanded⟩
  rw [hhanded, pull_handed, List.mem_append, List.mem_singleton] at hc
  rcases hc with hc | rfl
  · exact Or.inl hc
  · exact Or.inr ⟨rfl, hfits, hmem⟩

/-- After it, every chunk handed over fits. -/
theorem Inv.fits_sent (h : Inv x fed s) (hs : Sent x (pull x s).1 (pull x s).2 s') :
    ∀ c ∈ handed s'.log, Fits x c := by
  intro c hc
  rcases mem_handed_of_sent hs hc with hc | hc
  · exact h.fits c hc
  · exact hc.2.1

/-- While the queue holds more than a block, the block handed over is full. -/
theorem Inv.full_sent (h : Inv x fed s) (hlt : x.F < s.fifo.length)
    (hs : Sent x (pull x s).1 (pull x s).2 s') : ∀ c ∈ handed s'.log, c.1.length = x.F := by
  intro c hc
  rcases mem_handed_of_sent hs hc with hc | hc
  · exact h.full c hc
  · rw [hc.1]
    exact List.length_take_of_le hlt.le

theorem Inv.sent (h : Inv x fed s) (hlt : x.F < s.fifo.length)
    (hs : Sent x (pull x s).1 (pull x s).2 s') : Inv x fed s' where
  feed := hs.feed.trans h.feed
  pushed := by rw [hs.pushed, pull_pushed, h.pushed]
  queue := h.queue_sent hs
  full := h.full_sent hlt hs
  rest := by
    intro hnil
    have hlen := congrArg List.length hnil
    rw [hs.fifo, pull_fifo, List.length_drop, List.length_nil] at hlen
    omega
  fits := h.fits_sent hs

/-- One iteration of the drain loop hands over the block pulled. -/
theorem drainStep_sent (x : Context α) (s : State α) :
    Flow.Holds (Sent x (pull x s).1 (pull x s).2)
      (fun r => r.1 ≠ 0 ∧
        (handed r.2.log = handed s.log ∨ Sent x (pull x s).1 (pull x s).2 r.2))
      (drainStep x s) := by
  have hsend := sendChunk_sent x (-19000) (-20000) (pull_loaded x s)
  refine Flow.Holds.bind (hsend.imp_ret ?ret) fun s' hs => ?next
  case ret =>
    rintro ⟨code, s'⟩ (⟨rfl, hs⟩ | ⟨rfl, hs⟩)
    · exact ⟨by simp, Or.inl (hs.trans (pull_handed x s))⟩
    · exact ⟨by simp, Or.inr hs⟩
  case next =>
    refine (receivePackets_quiet x (-21000) s').imp (fun _ hq => hs.quiet hq) ?_
    rintro ⟨code, s''⟩ ⟨rfl, hq⟩
    exact ⟨by simp, Or.inr (hs.quiet hq)⟩

theorem drainStep_inv (h : Inv x fed s) (hlt : x.F < s.fifo.length) :
    Flow.Holds (Inv x fed) (Failed x) (drainStep x s) := by
  refine (drainStep_sent x s).imp (fun _ hs => h.sent hlt hs) ?_
  rintro ⟨code, s'⟩ ⟨hcode, hs | hs⟩
  · exact h.failed hcode hs
  · exact (h.sent hlt hs).failed hcode rfl

/-- The drain loop leaves at most one block in the queue, and what its iterations keep. -/
theorem drain_of_step {D : State α → Prop} {Q : ℤ × State α → Prop}
    (hstep : ∀ s, x.F < s.fifo.length → D s → Flow.Holds D Q (drainStep x s)) (h : D s) :
    Flow.Holds (fun s' => D s' ∧ s'.fifo.length ≤ x.F) Q (drain x s) := by
  have hbody : ∀ s, decide (x.F < s.fifo.length) = true → D s →
      Flow.Holds D Q (drainStep x s) :=
    fun s hlt hs => hstep s (of_decide_eq_true hlt) hs
  refine (Flow.holds_whileLoop D _ h hbody).imp_next ?_
  intro s' hs'
  exact ⟨hs'.1, by simpa using hs'.2⟩

theorem drain_inv (h : Inv x fed s) :
    Flow.Holds (fun s' => Inv x fed s' ∧ s'.fifo.length ≤ x.F) (Failed x) (drain x s) :=
  drain_of_step (fun _ hlt hs => drainStep_inv hs hlt) h

/-- The frames of one packet are pushed. -/
theorem forEach_push_inv (handle : ℕ → ℤ) (done frames : List (AVFrame α))
    (h : Inv x (x.stream handle done) s) :
    Flow.Holds (Inv x (x.stream handle (done ++ frames))) (Failed x)
      (Flow.forEach (push x) frames s) := by
  refine Flow.holds_forEach (fun pre s => Inv x (x.stream handle pre) s) frames h ?_
  intro pre f _ s _ hs
  rw [Context.stream_concat]
  exact push_inv hs f

/-- What holds between two packets: the drain loop, when it stands inside the packet loop,
has been left. -/
def Between (x : Context α) (handle : ℕ → ℤ) (events : List (Event α)) (s : State α) : Prop :=
  Inv x (x.stream handle (allFrames events)) s ∧
    (x.pipeline.interleaved = true → s.fifo.length ≤ x.F)

/-- One packet. -/
theorem onPacket_between {handle : ℕ → ℤ} {events : List (Event α)} (e : Event α)
    (h : Between x handle events s) :
    Flow.Holds (Between x handle (events ++ [e])) (Failed x) (onPacket x e s) := by
  have hread : Quiet s (s.call .readFrame) := Quiet.call rfl s
  have hskip : e.frames = [] →
      Between x handle (events ++ [e]) ((s.call .readFrame).call .unref) := by
    intro he
    have hq := hread.trans (Quiet.call rfl (s.call .readFrame) : Quiet _ (State.call _ .unref))
    refine ⟨?_, h.2⟩
    rw [allFrames_concat, he, List.append_nil]
    exact h.1.quiet hq
  cases e with
  | other => exact hskip rfl
  | rejected => exact hskip rfl
  | accepted frames =>
    have hpush := forEach_push_inv handle (allFrames events) frames (h.1.quiet hread)
    have hunref : ∀ s : State α, Between x handle (events ++ [.accepted frames]) s →
        Between x handle (events ++ [.accepted frames]) (s.call .unref) := by
      intro s hs
      exact ⟨hs.1.quiet (Quiet.call rfl s), hs.2⟩
    refine Flow.Holds.bind (Flow.Holds.bind hpush ?drained) fun s hs => hunref s hs
    case drained =>
      intro s hs
      have hs : Inv x (x.stream handle (allFrames (events ++ [.accepted frames]))) s := by
        rw [allFrames_concat]
        exact hs
      split_ifs with hi
      · exact (drain_inv hs).imp_next fun _ hs' => ⟨hs'.1, fun _ => hs'.2⟩
      · exact ⟨hs, fun hi' => absurd hi' hi⟩

/-! ## The end of a run -/

/-- What holds of a result of a run over frames that push `stream`. -/
structure Done (x : Context α) (stream : List (Sample α)) (r : ℤ × State α) : Prop where
  fits : ∀ h ∈ handed r.2.log, Fits x h
  length : ∀ h ∈ handed r.2.log,
    h.1.length = x.F ∨ stream ≠ [] ∧ h.1.length = (stream.length - 1) % x.F + 1
  complete : r.1 = 0 →
    pushed r.2.log = stream ∧ Blocks x.F stream (chunks r.2.log) ∧ r.2.fifo = []

theorem Failed.done {r : ℤ × State α} (h : Failed x r) (stream : List (Sample α)) :
    Done x stream r :=
  ⟨h.fits, fun c hc => Or.inl (h.full c hc), fun hcode => absurd hcode h.code⟩

/-- The queue has been emptied into the chunks. -/
structure Drained (x : Context α) (stream : List (Sample α)) (s : State α) : Prop where
  fits : ∀ h ∈ handed s.log, Fits x h
  length : ∀ h ∈ handed s.log,
    h.1.length = x.F ∨ stream ≠ [] ∧ h.1.length = (stream.length - 1) % x.F + 1
  pushed : pushed s.log = stream
  blocks : Blocks x.F stream (chunks s.log)
  fifo : s.fifo = []

variable {stream : List (Sample α)}

theorem Drained.done (h : Drained x stream s) (code : ℤ) : Done x stream (code, s) :=
  ⟨h.fits, h.length, fun _ => ⟨h.pushed, h.blocks, h.fifo⟩⟩

theorem Drained.quiet (h : Drained x stream s) (hq : Quiet s s') : Drained x stream s' := by
  have hchunks : chunks s'.log = chunks s.log := by rw [chunks, hq.handed, chunks]
  refine ⟨?_, ?_, hq.pushed.trans h.pushed, hchunks ▸ h.blocks, hq.fifo.trans h.fifo⟩
  · rw [hq.handed]
    exact h.fits
  · rw [hq.handed]
    exact h.length

/-- The tail chunk is the last block. -/
theorem Inv.drained (h : Inv x fed s) (hne : s.fifo ≠ []) (hle : s.fifo.length ≤ x.F)
    (hs : Sent x (pull x s).1 (pull x s).2 s') : Drained x fed.2 s' := by
  rcases hs.handed with ⟨frame, _, _, hhanded⟩
  have hpos : 1 ≤ s.fifo.length := List.length_pos_of_ne_nil hne
  rw [pull_handed, pull_fst, List.take_of_length_le hle] at hhanded
  have hchunks : chunks s'.log = chunks s.log ++ [s.fifo] := by simp [chunks, hhanded]
  have hblocks : Blocks x.F fed.2 (chunks s'.log) := by
    rw [hchunks, ← h.queue]
    refine Blocks.concat ?_ hpos hle
    intro c hc
    rcases List.mem_map.1 hc with ⟨c', hc', rfl⟩
    exact h.full c' hc'
  refine ⟨h.fits_sent hs, ?_, ?_, hblocks, ?_⟩
  · intro c hc
    rw [hhanded, List.mem_append, List.mem_singleton] at hc
    rcases hc with hc | rfl
    · exact Or.inl (h.full c hc)
    · refine Or.inr ⟨?_, ?_⟩
      · rw [← h.queue]
        simp [hne]
      · exact hblocks.length_getLast s.fifo (by simp [hchunks])
  · rw [hs.pushed, pull_pushed, h.pushed]
  · rw [hs.fifo, pull_fifo, List.drop_of_length_le hle]

/-- With nothing in the queue, nothing has been pushed. -/
theorem Inv.drained_nil (h : Inv x fed s) (hnil : s.fifo = []) :
    Drained x fed.2 (pull x s).2 := by
  have hhanded : handed s.log = [] := h.rest hnil
  have hstream : fed.2 = [] := by rw [← h.queue, chunks, hhanded, hnil]; rfl
  refine ⟨?_, ?_, ?_, ?_, ?_⟩
  · simp [hhanded]
  · simp [hhanded]
  · rw [pull_pushed, h.pushed]
  · rw [chunks, pull_handed, hhanded, hstream]
    exact Blocks.nil x.F
  · simp [hnil]

/-- What holds after the tail chunk and is kept by quiet calls holds of the results. -/
theorem finish_of_tail {D : State α → Prop} {Q : ℤ × State α → Prop}
    (hquiet : ∀ s s', D s → Quiet s s' → D s') (hQ : ∀ code s, D s → Q (code, s))
    (hsend : s.fifo ≠ [] →
      Flow.Holds D Q (sendChunk x (-22000) (-23000) (pull x s).1 (pull x s).2))
    (hnil : s.fifo = [] → D (pull x s).2) (hle : s.fifo.length ≤ x.F) :
    Flow.Holds (fun _ => False) Q (finish x s) := by
  refine Flow.Holds.bind (P := D) ?tail fun s hs =>
    Flow.Holds.bind (P := D) ?null fun s hs =>
    Flow.Holds.bind (P := D) ?packets fun s hs => ?trailer
  case tail =>
    have hchunk : (pull x s).1 = s.fifo := List.take_of_length_le hle
    rw [hchunk] at hsend ⊢
    split_ifs with hpos
    · exact hsend (List.ne_nil_of_length_pos hpos)
    · exact hnil (List.length_eq_zero_iff.1 (by omega))
  case null =>
    have hnull := hquiet s _ hs (Quiet.call (c := .sendNull) rfl s)
    split_ifs
    · exact hnull
    · exact hQ _ _ hnull
  case packets =>
    refine (receivePackets_quiet x (-25000) s).imp (fun _ hq => hquiet _ _ hs hq) ?_
    intro r hr
    exact hQ _ _ (hquiet _ _ hs hr.2)
  case trailer =>
    have htrailer := hquiet s _ hs (Quiet.call (c := .writeTrailer) rfl s)
    split_ifs
    · exact hQ _ _ htrailer
    · exact hQ _ _ htrailer

/-- The single pull after the loops hands over what is left. -/
theorem finish_done (h : Inv x fed s) (hle : s.fifo.length ≤ x.F) :
    Flow.Holds (fun _ => False) (Done x fed.2) (finish x s) := by
  refine finish_of_tail (fun _ _ => Drained.quiet) (fun code _ hs => hs.done code) ?_
    h.drained_nil hle
  intro hne
  refine (sendChunk_sent x (-22000) (-23000) (pull_loaded x s)).imp
    (fun _ hs => h.drained hne hle hs) ?_
  rintro ⟨code, s'⟩ (⟨rfl, hs⟩ | ⟨rfl, hs⟩)
  · exact (h.failed (by decide) (hs.trans (pull_handed x s))).done _
  · exact (h.drained hne hle hs).done _

/-- **Every run**: whatever is handed over fits, and lies on the block boundaries of the
stream; a run that returns 0 has handed over all of it. -/
theorem run_done (x : Context α) (events : List (Event α)) (mem : ℤ → α) (handle : ℕ → ℤ) :
    Flow.Holds (fun _ => False) (Done x (x.stream handle (allFrames events)).2)
      (run x events (State.init x mem handle)) := by
  have hloop : Flow.Holds (Between x handle events) (Failed x)
      (Flow.forEach (onPacket x) events (State.init x mem handle)) := by
    refine Flow.holds_forEach (fun pre s => Between x handle pre s) events (d := [])
      ⟨Inv.init mem handle, fun _ => Nat.zero_le _⟩ ?_
    intro pre e _ s _ hs
    exact onPacket_between e hs
  refine Flow.Holds.bind (hloop.imp_ret fun r hr => hr.done _) fun s hs => ?_
  refine Flow.Holds.bind (P := fun s => Inv x (x.stream handle (allFrames events)) s ∧
    s.fifo.length ≤ x.F) ?_ fun s hs => finish_done hs.1 hs.2
  split_ifs with hi
  · exact ⟨hs.1, hs.2 hi⟩
  · exact (drain_inv hs.1).imp_ret fun r hr => hr.done _

end run
end AudioCrash.Audio
