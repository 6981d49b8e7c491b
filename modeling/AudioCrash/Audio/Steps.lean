import AudioCrash.Lib.Script
import AudioCrash.Audio.Blocks

/-!
# A run, one call after another

The run of a pipeline once more, as a script of its FFmpeg calls, so that other objects can
take steps between them. The calls that use the sample buffer are left to a handler; all
others are steps of the object alone. The fields `mem` and `data` of `State` are not used
here: what they hold is kept by the handler.

When the buffer belongs to the object, the script does what `run` does (`run_linked`).

## Main definitions

* `Use` — the uses of the sample buffer.
* `Steps.run` — the script of a run.
* `Private`, `usePrivate`, `run_linked` — the run alone.
-/

namespace AudioCrash.Audio

open Grid

variable {α : Type}

/-! ## The uses of the buffer -/

/-- The calls of a run. -/
inductive Use (x : Context α) where
  /-- A call that does not touch the sample buffer. -/
  | own
  /-- `swr_convert(swr_ctx, buffer, audio_output_frame_size, nullptr, 0)`, when these samples
  are in the resampler. -/
  | pull (queue : List (Sample α))
  /-- `tune(buffer, ..)`. -/
  | tune (args : TuneArgs α) (n : ℕ) (le : n ≤ x.F)
  /-- `avcodec_fill_audio_frame(encode_frame, .., buffer[0], ..)`, for `n` samples. -/
  | fill (n : ℕ)
  /-- `avcodec_send_frame(output_av_codec_ctx, encode_frame)`. -/
  | send (n : ℕ)

/-- What a call returns: the encoder is given a frame. -/
def Use.Reply {x : Context α} : Use x → Type
  | .send _ => AVFrame α
  | _ => Unit

/-- A statement of a run. -/
abbrev Body (x : Context α) (β : Type) := Script (Use x) Use.Reply (ℤ × State α) β

/-- A chunk is not longer than the buffer. -/
abbrev Chunk (x : Context α) := { chunk : List (Sample α) // chunk.length ≤ x.F }

namespace Steps
variable (x : Context α)

/-- `Audio.push`. -/
def push (f : AVFrame α) (s : State α) : Body x (State α) :=
  .call .own fun _ => .ofFlow (Audio.push x f s)

/-- `Audio.pull`. -/
def pull (s : State α) : Body x (Chunk x × State α) :=
  .call (.pull s.fifo) fun _ =>
  let chunk : Chunk x := ⟨s.fifo.take x.F, List.length_take_le _ _⟩
  .next (chunk, { s.call (.pull chunk.1) with fifo := s.fifo.drop x.F })

/-- `Audio.sendChunk`. -/
def sendChunk (fillCode sendCode : ℤ) (chunk : Chunk x) (s : State α) : Body x (State α) :=
  let samples := chunk.1.length
  .call (.tune s.args samples chunk.2) fun _ =>
  let s := { s with pos := s.pos + samples, nbSamples := samples }
  if bufferSize x.C x.F < bufferSize x.C s.nbSamples then .ret (fillCode, s)
  else
    .call (.fill s.nbSamples) fun _ =>
    if x.ffmpeg.fillOk s.log then
      let s := s.call .fill
      .call (.send s.nbSamples) fun (frame : AVFrame α) =>
      let s' := s.call (.sendFrame chunk.1 frame)
      if x.ffmpeg.sendFrameOk s.log then .next s' else .ret (sendCode, s')
    else .ret (fillCode, s)

/-- `Audio.receivePacket`. -/
def receivePacket (writeCode : ℤ) (pkt : Packet) (s : State α) : Body x (State α) :=
  .call .own fun _ => .ofFlow (Audio.receivePacket x writeCode pkt s)

/-- `Audio.receivePackets`. -/
def receivePackets (writeCode : ℤ) (s : State α) : Body x (State α) :=
  .forEach (receivePacket x writeCode) (x.ffmpeg.packets s.log) s

/-- `Audio.drainStep`. -/
def drainStep (s : State α) : Body x (State α) :=
  (pull x s).bind fun samples =>
  (sendChunk x (-19000) (-20000) samples.1 samples.2).bind (receivePackets x (-21000))

/-- `Audio.drain`. -/
def drain (s : State α) : Body x (State α) :=
  .whileLoop (fun s => decide (x.F < s.fifo.length)) (drainStep x) (s.fifo.length + 1) s

/-- `Audio.onPacket`. -/
def onPacket (event : Event α) (s : State α) : Body x (State α) :=
  .call .own fun _ =>
  let s := s.call .readFrame
  match event with
  | .other => .next (s.call .unref)
  | .rejected => .next (s.call .unref)
  | .accepted frames =>
    ((Script.forEach (push x) frames s).bind fun s =>
      if x.pipeline.interleaved then drain x s else .next s).bind fun s =>
    .call .own fun _ => .next (s.call .unref)

/-- `Audio.finish`. -/
def finish (s : State α) : Body x (State α) :=
  (pull x s).bind fun samples =>
  (if 0 < samples.1.1.length then sendChunk x (-22000) (-23000) samples.1 samples.2
    else .next samples.2).bind fun s =>
  .call .own fun _ =>
  let s' := s.call .sendNull
  (if x.ffmpeg.sendFrameOk s.log then .next s'
    else .ret (-24000, s') : Body x (State α)).bind fun s =>
  (receivePackets x (-25000) s).bind fun s =>
  .call .own fun _ =>
  let s' := s.call .writeTrailer
  if x.ffmpeg.trailerOk s.log then .ret (0, s') else .ret (-26000, s')

/-- `Audio.run`. -/
def run (events : List (Event α)) (s : State α) : Body x (State α) :=
  (Script.forEach (onPacket x) events s).bind fun s =>
  (if x.pipeline.interleaved then .next s else drain x s).bind fun s =>
  finish x s

end Steps

/-! ## The run alone -/

/-- The sample buffer and the encoder of an object that runs alone: the memory from `buffer[0]`
on, the number of samples that `encode_frame->data` has been laid out for, and the frames that
the encoder has been given. -/
structure Private (α : Type) where
  mem : ℤ → α
  filled : Option ℕ
  heard : List (AVFrame α)

section alone
variable (x : Context α)

/-- The samples that a pull writes to the planes `data`: the first ones in the queue. -/
def store (data : ℕ → ℤ) (queue : List (Sample α)) (mem : ℤ → α) : ℤ → α :=
  let chunk := queue.take x.F
  updateGrid x.C chunk.length (pcm data)
    (fun p i old => (chunk[i]?.map fun v => v p).getD old) mem

variable [Zero α]

/-- The frame that the encoder is given: one without planes before `encode_frame` is filled. -/
def Private.frame (own : Private α) (n : ℕ) : AVFrame α :=
  match own.filled with
  | some m => ⟨n, planeAt m, own.mem⟩
  | none => ⟨n, fun _ => 0, fun _ => 0⟩

/-- The calls on a buffer of one's own. -/
def usePrivate : (op : Use x) → Private α → op.Reply × Private α
  | .own, own => ((), own)
  | .pull queue, own => ((), { own with mem := store x (planeAt x.F) queue own.mem })
  | .tune args n _, own =>
    ((), { own with mem := x.pipeline.tune args (planeAt x.F) n x.C own.mem })
  | .fill n, own => ((), { own with filled := some n })
  | .send n, own => (own.frame n, { own with heard := own.heard ++ [own.frame n] })

/-- The state of `run` is that of the script and the content of the buffer, and the encoder
has been given the frames that the run has handed over. -/
def Linked (r : State α × Private α) (s : State α) : Prop :=
  ∃ data, s = { r.1 with mem := r.2.mem, data := data } ∧
    r.2.heard = (handed r.1.log).map Prod.snd

/-- The results agree. -/
def LinkedRet (r : (ℤ × State α) × Private α) (r' : ℤ × State α) : Prop :=
  r.1.1 = r'.1 ∧ Linked (r.1.2, r.2) r'.2

/-- A script does what a statement does. -/
abbrev Follows {x : Context α} (body : Body x (State α)) (own : Private α) (y : Step α) : Prop :=
  Flow.Related Linked LinkedRet (body.exec (usePrivate x) own) y

variable {x} {s S : State α} {own : Private α}

section linked
omit [Zero α]

theorem Linked.fifo (h : Linked (s, own) S) : S.fifo = s.fifo := by
  rcases h with ⟨data, rfl, _⟩
  rfl

theorem Linked.drop (h : Linked (s, own) S) : S.drop = s.drop := by
  rcases h with ⟨data, rfl, _⟩
  rfl

theorem Linked.log (h : Linked (s, own) S) : S.log = s.log := by
  rcases h with ⟨data, rfl, _⟩
  rfl

theorem Linked.call (h : Linked (s, own) S) {c : Call α} (hc : c.quiet = true) :
    Linked (s.call c, own) (S.call c) := by
  rcases h with ⟨data, rfl, hheard⟩
  exact ⟨data, rfl, hheard.trans (congrArg _ (handed_quiet hc s.log).symm)⟩

end linked

theorem push_linked (h : Linked (s, own) S) (f : AVFrame α) :
    Follows (Steps.push x f s) own (push x f S) := by
  refine Script.related_ofFlow ?_
  rcases h with ⟨data, rfl, hheard⟩
  simp only [push]
  split_ifs
  · exact ⟨data, rfl, hheard.trans (by simp)⟩
  · exact ⟨rfl, data, rfl, hheard⟩

theorem receivePacket_linked (h : Linked (s, own) S) (code : ℤ) (pkt : Packet) :
    Follows (Steps.receivePacket x code pkt s) own (receivePacket x code pkt S) := by
  have hreceive := h.call (c := .receivePacket pkt) rfl
  have hwrite := fun pkt' => hreceive.call (c := .writeFrame pkt') rfl
  refine Script.related_ofFlow ?_
  simp only [receivePacket, hreceive.drop, hreceive.log]
  split_ifs
  · exact hwrite _
  · exact ⟨rfl, hwrite _⟩
  · rcases hreceive with ⟨data, heq, hheard⟩
    refine ⟨data, ?_, hheard⟩
    rw [heq]
    rfl

theorem receivePackets_linked (h : Linked (s, own) S) (code : ℤ) :
    Follows (Steps.receivePackets x code s) own (receivePackets x code S) := by
  rw [receivePackets, h.log]
  exact Script.related_forEach (fun pkt a own s hs => receivePacket_linked hs code pkt) _ h

/-- A pull, and what is done with the chunk. -/
theorem pull_linked (h : Linked (s, own) S) {body : Chunk x × State α → Body x (State α)}
    {g : List (Sample α) × State α → Step α}
    (hrest : ∀ (chunk : Chunk x) s own S, Linked (s, own) S →
      Follows (body (chunk, s)) own (g (chunk.1, S))) :
    Follows ((Steps.pull x s).bind body) own (g (pull x S)) := by
  rcases h with ⟨data, rfl, hheard⟩
  refine hrest ⟨s.fifo.take x.F, List.length_take_le _ _⟩ _ _ _ ⟨data, rfl, ?_⟩
  exact hheard.trans (congrArg _ (handed_quiet (c := .pull (s.fifo.take x.F)) rfl s.log).symm)

theorem sendChunk_linked (h : Linked (s, own) S) (fillCode sendCode : ℤ) (chunk : Chunk x) :
    Follows (Steps.sendChunk x fillCode sendCode chunk s) own
      (sendChunk x fillCode sendCode chunk.1 S) := by
  rcases h with ⟨data, rfl, hheard⟩
  simp only [Follows, Steps.sendChunk, Script.exec_call, sendChunk, fillAudioFrame]
  by_cases hsize : bufferSize x.C x.F < bufferSize x.C chunk.1.length
  · rw [if_pos hsize, if_pos hsize]
    exact ⟨rfl, data, rfl, hheard⟩
  · rw [if_neg hsize, if_neg hsize]
    by_cases hfill : x.ffmpeg.fillOk s.log = true
    · rw [if_pos hfill, if_pos hfill]
      have hheard' : ∀ frame : AVFrame α, own.heard ++ [frame] =
          (handed (s.log ++ [.fill] ++ [.sendFrame chunk.1 frame])).map Prod.snd := by
        intro frame
        have hquiet := handed_quiet (c := (.fill : Call α)) rfl s.log
        rw [handed_sendFrame, hquiet, List.map_append, ← hheard, List.map_singleton]
      change Flow.Related Linked LinkedRet
        (Script.exec _ (if x.ffmpeg.sendFrameOk (s.log ++ [.fill]) = true then _ else _) _)
        (if x.ffmpeg.sendFrameOk (s.log ++ [.fill]) = true then _ else _)
      by_cases hsend : x.ffmpeg.sendFrameOk (s.log ++ [.fill]) = true
      · rw [if_pos hsend, if_pos hsend]
        exact ⟨planeAt chunk.1.length, rfl, hheard' _⟩
      · rw [if_neg hsend, if_neg hsend]
        exact ⟨rfl, planeAt chunk.1.length, rfl, hheard' _⟩
    · rw [if_neg hfill, if_neg hfill]
      exact ⟨rfl, data, rfl, hheard⟩

theorem Follows.bind {body : Body x (State α)} {y : Step α} (h : Follows body own y)
    {rest : State α → Body x (State α)} {rest' : State α → Step α}
    (hrest : ∀ s own S, Linked (s, own) S → Follows (rest s) own (rest' S)) :
    Follows (body.bind rest) own (y.bind rest') := by
  rw [Follows, Script.exec_bind]
  exact Flow.Related.bind h fun r S hr => hrest r.1 r.2 S hr

theorem drainStep_linked (h : Linked (s, own) S) :
    Follows (Steps.drainStep x s) own (drainStep x S) :=
  pull_linked h (g := fun samples =>
      (sendChunk x (-19000) (-20000) samples.1 samples.2).bind (receivePackets x (-21000)))
    fun chunk _ _ _ hs => (sendChunk_linked hs _ _ chunk).bind
      fun _ _ _ hs => receivePackets_linked hs _

theorem drain_linked (h : Linked (s, own) S) : Follows (Steps.drain x s) own (drain x S) := by
  simp only [drain, h.fifo]
  refine Script.related_whileLoop ?_ (fun _ _ _ hs => drainStep_linked hs) _ h
  intro s own S hs
  rw [hs.fifo]

theorem onPacket_linked (h : Linked (s, own) S) (event : Event α) :
    Follows (Steps.onPacket x event s) own (onPacket x event S) := by
  have hread := h.call (c := .readFrame) rfl
  cases event with
  | other => exact hread.call (c := .unref) rfl
  | rejected => exact hread.call (c := .unref) rfl
  | accepted frames =>
    refine Follows.bind (Follows.bind
      (Script.related_forEach (fun f _ _ _ hs => push_linked hs f) frames hread) ?_) ?_
    · intro s own S hs
      split_ifs
      · exact drain_linked hs
      · exact hs
    · intro s own S hs
      exact hs.call (c := .unref) rfl

/-- A call that does not touch the buffer, and an answer to it. -/
theorem answer_linked (h : Linked (s, own) S) (ok : Bool) (code : ℤ) :
    Follows (if ok then .next s else .ret (code, s) : Body x (State α)) own
      (if ok then Flow.next S else Flow.ret (code, S)) := by
  cases ok with
  | true => exact h
  | false => exact ⟨rfl, h⟩

theorem finish_linked (h : Linked (s, own) S) : Follows (Steps.finish x s) own (finish x S) := by
  simp only [finish]
  refine pull_linked h (g := fun samples => Flow.bind (if 0 < samples.1.length then
    sendChunk x (-22000) (-23000) samples.1 samples.2 else .next samples.2) _) ?_
  intro chunk s own S hs
  refine Follows.bind ?tail fun s own S hs => ?null
  case tail =>
    dsimp only
    split_ifs
    · exact sendChunk_linked hs _ _ chunk
    · exact hs
  case null =>
    rw [hs.log]
    refine Follows.bind (answer_linked (hs.call (c := .sendNull) rfl) _ _) fun s own S hs =>
      Follows.bind (receivePackets_linked hs _) fun s own S hs => ?_
    have htrailer := hs.call (c := .writeTrailer) rfl
    rw [hs.log]
    change Follows (if x.ffmpeg.trailerOk s.log = true then _ else _) own _
    split_ifs
    · exact ⟨rfl, htrailer⟩
    · exact ⟨rfl, htrailer⟩

/-- **The script does what `run` does**, when the buffer belongs to the object. -/
theorem run_linked (h : Linked (s, own) S) (events : List (Event α)) :
    Follows (Steps.run x events s) own (run x events S) := by
  refine Follows.bind (Script.related_forEach (fun e _ _ _ hs => onPacket_linked hs e) events h)
    fun s own S hs => Follows.bind ?_ fun s own S hs => finish_linked hs
  split_ifs
  · exact hs
  · exact drain_linked hs

end alone
end AudioCrash.Audio
