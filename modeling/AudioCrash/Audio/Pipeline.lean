import AudioCrash.Audio.Cut
import AudioCrash.Audio.Tune
import Mathlib.Tactic.Linarith

/-!
# Decoding, resampling and encoding

The four classes `AudioConvert`, `AudioCut`, `AudioVolume` and `AudioGradient` share the part
of `run` from `/// 5. Decode` on: it reads the packets of the input, feeds the decoded frames
to the resampler, takes chunks of `audio_output_frame_size` samples out of it, and encodes
and writes them. A `Pipeline` is what differs: which part of a decoded frame is fed, whether
the resampler is drained after every packet or once after the end of the file, and how a
chunk is scaled in place.

The resampler is a queue of samples, since the rates are equal. A sample is the values of all
channels at one time. The answers of the other FFmpeg calls are any functions of the calls
made before, which the state keeps as a log. The output format is `AV_SAMPLE_FMT_FLTP`, and
the chunk buffer and the encoded frame are memory at byte addresses counted from `buffer[0]`.

## Main definitions

* `Pipeline` — `audioConvert`, `audioCut`, `audioVolume`, `audioGradient`.
* `Call`, `Ffmpeg` — the calls and the answers to them.
* `State` — the variables of `run`.
* `push`, `pull`, `sendChunk`, `receivePackets`, `drain`, `onPacket`, `finish`, `run`.
-/

namespace AudioCrash.Audio

open Grid

/-! ## The four programs -/

/-- What `tune` is called with besides the chunk: the frames decoded so far, and the counters
`pos` and `nframes`. -/
structure TuneArgs (α : Type) where
  decoded : List (AVFrame α)
  pos : ℕ
  nframes : ℤ

/-- What one of the programs does in its own way. -/
structure Pipeline (α : Type) where
  /-- The drain loop stands inside the packet loop. -/
  interleaved : Bool
  /-- The pointers and the count that a decoded frame is pushed with. -/
  feed : SampleFormat → ℕ → CutState → AVFrame α → CutState × Fed α
  /-- The scaling of a chunk in place. -/
  tune : TuneArgs α → (ℕ → ℤ) → ℕ → ℕ → (ℤ → α) → ℤ → α
  /-- What the scaling makes of one value. -/
  gain : TuneArgs α → α → α
  tune_cell : ∀ (args : TuneArgs α) {data : ℕ → ℤ} {C n : ℕ} (mem : ℤ → α),
    PlanesApart data C n → ∀ {p i : ℕ}, p < C → i < n →
      tune args data n C mem (pcm data p i) = gain args (mem (pcm data p i))
  tune_other : ∀ (args : TuneArgs α) {data : ℕ → ℤ} {C n : ℕ} (mem : ℤ → α) {a : ℤ},
    (∀ p < C, ∀ i < n, a ≠ pcm data p i) → tune args data n C mem a = mem a

/-- A decoded frame is pushed as it is. -/
def feedFrame {α : Type} (_fmt : SampleFormat) (_nb_channels : ℕ) (s : CutState)
    (f : AVFrame α) : CutState × Fed α :=
  ({ s with nframes := s.nframes + f.nbSamples }, ⟨f, f.data, f.nbSamples⟩)

/-- `AudioConvert`. -/
def audioConvert {α : Type} : Pipeline α where
  interleaved := true
  feed := feedFrame
  tune _ _ _ _ mem := mem
  gain _ x := x
  tune_cell _ _ _ _ _ _ _ _ _ _ := rfl
  tune_other _ _ _ _ _ _ _ := rfl

/-- `AudioCut`, for a window given in sample frames. -/
def audioCut {α : Type} (start_nframes end_nframes : ℤ) : Pipeline α where
  interleaved := true
  feed := cutFrame start_nframes end_nframes
  tune _ _ _ _ mem := mem
  gain _ x := x
  tune_cell _ _ _ _ _ _ _ _ _ _ := rfl
  tune_other _ _ _ _ _ _ _ := rfl

/-- `AudioVolume`, for a volume in decibels. `print_stats` is the mean volume found from the
histogram of the decoded frames. -/
def audioVolume (pow : ℚ → ℚ → ℚ) (print_stats : List (AVFrame ℚ) → ℚ) (volume : ℚ) :
    Pipeline ℚ where
  interleaved := false
  feed := feedFrame
  tune args data n C := AudioVolume.tune pow data n C .fltp (volume - print_stats args.decoded)
  gain args := AudioVolume.scaled (pow 10 ((volume - print_stats args.decoded) / 20))
  tune_cell _ _ _ _ mem h _ _ := AudioVolume.tune_cell pow _ mem h
  tune_other _ _ _ _ mem _ := AudioVolume.tune_other pow _ mem

/-- `AudioGradient`, for the function `main` of the script. -/
def audioGradient (main : ℚ → ℚ → ℚ) (sample_rate : ℕ) : Pipeline ℚ where
  interleaved := false
  feed := feedFrame
  tune args data n C := AudioGradient.tune main data n C .fltp
    (args.pos * 1000 / sample_rate) (args.nframes * 1000 / sample_rate)
  gain args := AudioGradient.scaled
    (main (args.pos * 1000 / sample_rate) (args.nframes * 1000 / sample_rate))
  tune_cell _ _ _ _ mem h _ _ := AudioGradient.tune_cell main _ _ mem h
  tune_other _ _ _ _ mem _ := AudioGradient.tune_other main _ _ mem

/-! ## The layout of the planes -/

/-- `FFALIGN(n, 32)`. -/
def align32 (n : ℕ) : ℕ := (n + 31) / 32 * 32

theorem le_align32 (n : ℕ) : n ≤ align32 n := by
  simp only [align32]
  omega

theorem align32_mono {m n : ℕ} (h : m ≤ n) : align32 m ≤ align32 n := by
  simp only [align32]
  omega

/-- Where the plane `p` starts in a buffer of planes of `n` floats. -/
def planeAt (n p : ℕ) : ℤ := p * (4 * align32 n)

/-- `av_samples_get_buffer_size`. -/
def bufferSize (nb_channels nb_samples : ℕ) : ℕ := nb_channels * (4 * align32 nb_samples)

@[simp] theorem planeAt_zero (n : ℕ) : planeAt n 0 = 0 := by simp [planeAt]

theorem bufferSize_mono (C : ℕ) {m n : ℕ} (h : m ≤ n) : bufferSize C m ≤ bufferSize C n :=
  Nat.mul_le_mul_left C (Nat.mul_le_mul_left 4 (align32_mono h))

/-- The planes of a buffer do not overlap. -/
theorem planesApart_planeAt {F n : ℕ} (C : ℕ) (h : n ≤ F) : PlanesApart (planeAt F) C n := by
  have hplane : ∀ p i, i < n → (p * align32 F + i) / align32 F = p := by
    intro p i hi
    have hlt : i < align32 F := lt_of_lt_of_le hi (h.trans (le_align32 F))
    rw [Nat.mul_comm, Nat.mul_add_div (by omega), Nat.div_eq_of_lt hlt, Nat.add_zero]
  intro p _ p' _ i hi i' hi' heq
  have hcell : p * align32 F + i = p' * align32 F + i' := by
    simp only [pcm, planeAt] at heq
    have hfour : (4 : ℤ) * (p * align32 F + i : ℕ) = 4 * (p' * align32 F + i' : ℕ) := by
      push_cast
      linarith
    exact_mod_cast mul_left_cancel₀ (by decide) hfour
  have hp : p = p' := by rw [← hplane p i hi, hcell, hplane p' i' hi']
  rw [hp] at hcell
  exact ⟨hp, Nat.add_left_cancel hcell⟩

/-! ## Calls and answers -/

/-- The values of all channels at one time. -/
abbrev Sample (α : Type) := ℕ → α

/-- `AVPacket`: the fields that `run` reads and writes, and the payload. -/
structure Packet where
  payload : ℕ
  streamIndex : ℤ
  pts : ℤ
  dts : ℤ
  duration : ℤ
  deriving DecidableEq, Repr

/-- The calls of FFmpeg functions that a run makes. -/
inductive Call (α : Type) where
  /-- `av_read_frame`, which delivered a packet. -/
  | readFrame
  /-- `av_packet_unref(&input_packet)`. -/
  | unref
  /-- `swr_convert(swr_ctx, nullptr, 0, ptrs, n)`, which read these samples. -/
  | push (xs : List (Sample α))
  /-- `swr_convert(swr_ctx, buffer, n, nullptr, 0)`, which wrote these samples. -/
  | pull (xs : List (Sample α))
  /-- `avcodec_fill_audio_frame`. -/
  | fill
  /-- `avcodec_send_frame(ctx, encode_frame)`, for a chunk. -/
  | sendFrame (chunk : List (Sample α)) (frame : AVFrame α)
  /-- `avcodec_send_frame(ctx, nullptr)`. -/
  | sendNull
  /-- `avcodec_receive_packet`, which delivered a packet. -/
  | receivePacket (pkt : Packet)
  /-- `av_interleaved_write_frame`. -/
  | writeFrame (pkt : Packet)
  /-- `av_write_trailer`. -/
  | writeTrailer

/-- The answers of the FFmpeg calls, after any calls. -/
structure Ffmpeg (α : Type) where
  convertOk : List (Call α) → Bool
  fillOk : List (Call α) → Bool
  sendFrameOk : List (Call α) → Bool
  /-- The packets that `avcodec_receive_packet` delivers after the frame just sent. -/
  packets : List (Call α) → List Packet
  /-- `av_packet_rescale_ts` from the time base of the encoder to that of the stream. -/
  rescaleTs : Packet → Packet
  writeOk : List (Call α) → Bool
  trailerOk : List (Call α) → Bool

/-- A packet of the input: of another stream, rejected by `avcodec_send_packet`, or giving
decoded frames. -/
inductive Event (α : Type) where
  | other
  | rejected
  | accepted (frames : List (AVFrame α))

/-- The frames that a packet gives. -/
def Event.frames {α : Type} : Event α → List (AVFrame α)
  | accepted frames => frames
  | _ => []

/-! ## The run -/

/-- The variables of `run`. -/
structure State (α : Type) where
  /-- The samples in the resampler. -/
  fifo : List (Sample α)
  /-- The memory of the chunk buffer. -/
  mem : ℤ → α
  /-- `encode_frame->nb_samples`. -/
  nbSamples : ℕ
  /-- `encode_frame->data`. -/
  data : ℕ → ℤ
  drop : Bool
  feed : CutState
  pos : ℕ
  /-- The frames decoded so far. -/
  decoded : List (AVFrame α)
  log : List (Call α)

namespace State
variable {α : Type}

/-- Make a call. -/
def call (s : State α) (c : Call α) : State α := { s with log := s.log ++ [c] }

@[simp] theorem call_fifo (s : State α) (c : Call α) : (s.call c).fifo = s.fifo := rfl
@[simp] theorem call_mem (s : State α) (c : Call α) : (s.call c).mem = s.mem := rfl
@[simp] theorem call_nbSamples (s : State α) (c : Call α) :
    (s.call c).nbSamples = s.nbSamples := rfl
@[simp] theorem call_data (s : State α) (c : Call α) : (s.call c).data = s.data := rfl
@[simp] theorem call_drop (s : State α) (c : Call α) : (s.call c).drop = s.drop := rfl
@[simp] theorem call_feed (s : State α) (c : Call α) : (s.call c).feed = s.feed := rfl
@[simp] theorem call_pos (s : State α) (c : Call α) : (s.call c).pos = s.pos := rfl
@[simp] theorem call_decoded (s : State α) (c : Call α) : (s.call c).decoded = s.decoded := rfl
@[simp] theorem call_log (s : State α) (c : Call α) : (s.call c).log = s.log ++ [c] := rfl

/-- `tune` is called with these. -/
def args (s : State α) : TuneArgs α := ⟨s.decoded, s.pos, s.feed.nframes⟩

end State

/-- What a run has and does not change: the program, FFmpeg, the sample format of the decoder,
the number of channels, the index of the output stream and `audio_output_frame_size`. -/
structure Context (α : Type) where
  pipeline : Pipeline α
  ffmpeg : Ffmpeg α
  fmt : SampleFormat
  C : ℕ
  streamIndex : ℤ
  F : ℕ

section run
variable {α : Type} (x : Context α)

/-- A statement goes on, or returns a code. -/
abbrev Step (α : Type) := Flow (ℤ × State α) (State α)

/-- One iteration of the loop over the decoded frames. -/
def push (f : AVFrame α) (s : State α) : Step α :=
  let (feed, fed) := x.pipeline.feed x.fmt x.C s.feed f
  let xs := f.samples x.fmt x.C fed.inCount.toNat fed.handle
  let s := { s with feed := feed, decoded := s.decoded ++ [f] }
  if x.ffmpeg.convertOk s.log then
    Flow.next { s.call (.push xs) with fifo := s.fifo ++ xs }
  else Flow.ret (-18000, s)

/-- `swr_convert(swr_ctx, buffer, audio_output_frame_size, nullptr, 0)`: the samples taken
out, which are written to the planes of `buffer`. -/
def pull (s : State α) : List (Sample α) × State α :=
  let chunk := s.fifo.take x.F
  let mem := updateGrid x.C chunk.length (pcm (planeAt x.F))
    (fun p i old => (chunk[i]?.map fun v => v p).getD old) s.mem
  (chunk, { s.call (.pull chunk) with fifo := s.fifo.drop x.F, mem := mem })

/-- `avcodec_fill_audio_frame(encode_frame, .., buffer[0], buffer_size, 0)`. -/
def fillAudioFrame (s : State α) : Option (State α) :=
  if bufferSize x.C x.F < bufferSize x.C s.nbSamples then none
  else if x.ffmpeg.fillOk s.log then some { s.call .fill with data := planeAt s.nbSamples }
  else none

/-- Scale a chunk in place and hand it to the encoder. -/
def sendChunk (fillCode sendCode : ℤ) (chunk : List (Sample α)) (s : State α) : Step α :=
  let samples := chunk.length
  let mem := x.pipeline.tune s.args (planeAt x.F) samples x.C s.mem
  let s := { s with mem := mem, pos := s.pos + samples, nbSamples := samples }
  match fillAudioFrame x s with
  | none => Flow.ret (fillCode, s)
  | some s =>
    let s' := s.call (.sendFrame chunk ⟨s.nbSamples, s.data, s.mem⟩)
    if x.ffmpeg.sendFrameOk s.log then Flow.next s' else Flow.ret (sendCode, s')

/-- One iteration of the loop over the packets of the encoder. -/
def receivePacket (writeCode : ℤ) (pkt : Packet) (s : State α) : Step α :=
  let s := s.call (.receivePacket pkt)
  let pkt := x.ffmpeg.rescaleTs { pkt with streamIndex := x.streamIndex }
  if !s.drop then
    if x.ffmpeg.writeOk s.log then Flow.next (s.call (.writeFrame pkt))
    else Flow.ret (writeCode, s.call (.writeFrame pkt))
  else Flow.next { s with drop := false }

/-- `while (avcodec_receive_packet(output_av_codec_ctx, &pkt) == 0)`. -/
def receivePackets (writeCode : ℤ) (s : State α) : Step α :=
  Flow.forEach (receivePacket x writeCode) (x.ffmpeg.packets s.log) s

/-- One iteration of the drain loop. -/
def drainStep (s : State α) : Step α :=
  let samples := pull x s
  (sendChunk x (-19000) (-20000) samples.1 samples.2).bind (receivePackets x (-21000))

/-- `while (swr_get_out_samples(swr_ctx, 0) > audio_output_frame_size)`. Every iteration takes
samples out of the resampler, so that the fuel is enough. -/
def drain (s : State α) : Step α :=
  Flow.whileLoop (fun s => decide (x.F < s.fifo.length)) (drainStep x) (s.fifo.length + 1) s

/-- One iteration of the loop over the packets of the input. -/
def onPacket (event : Event α) (s : State α) : Step α :=
  let s := s.call .readFrame
  match event with
  | .other => Flow.next (s.call .unref)
  | .rejected => Flow.next (s.call .unref)
  | .accepted frames =>
    ((Flow.forEach (push x) frames s).bind fun s =>
      if x.pipeline.interleaved then drain x s else Flow.next s).bind fun s =>
    Flow.next (s.call .unref)

/-- The tail chunk, the flush of the encoder and the trailer. -/
def finish (s : State α) : Step α :=
  let samples := pull x s
  (if 0 < samples.1.length then sendChunk x (-22000) (-23000) samples.1 samples.2
    else Flow.next samples.2).bind fun s =>
  let s' := s.call .sendNull
  (if x.ffmpeg.sendFrameOk s.log then Flow.next s' else Flow.ret (-24000, s')).bind fun s =>
  (receivePackets x (-25000) s).bind fun s =>
  let s' := s.call .writeTrailer
  if x.ffmpeg.trailerOk s.log then Flow.ret (0, s') else Flow.ret (-26000, s')

/-- `run` from `/// 5. Decode` on. -/
def run (events : List (Event α)) (s : State α) : Step α :=
  (Flow.forEach (onPacket x) events s).bind fun s =>
  (if x.pipeline.interleaved then Flow.next s else drain x s).bind fun s =>
  finish x s

/-- The state before the first packet, for any content of the buffer and of `handle`. -/
def State.init (mem : ℤ → α) (handle : ℕ → ℤ) : State α where
  fifo := []
  mem := mem
  nbSamples := x.F
  data := fun _ => 0
  drop := true
  feed := CutState.init handle
  pos := 0
  decoded := []
  log := []

end run
end AudioCrash.Audio
