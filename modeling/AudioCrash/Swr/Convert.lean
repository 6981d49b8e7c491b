import AudioCrash.Audio.Pipeline

/-!
# `swr_convert` at equal rates

With equal rates there is no resampling filter: what has been put in and not taken out lies
in `in_buffer`, in the format of the input. `swr_convert` takes samples out of the buffer
first, passes new samples through when the caller wants more, and copies the rest to the end
of the buffer. Where the buffer ends too early, it moves its content to the front or
allocates a larger one.

A buffer is the memory that its pointers lead into. `memcpy` copies scalars, from the memory
as it is before the copy. The conversion is direct (`full_convert`), as it is for equal layouts,
without a map of the channels and without dither: `swr_convert_internal` then converts as many
samples as it is given, and does not fail. What it makes of them is not modelled: what is taken
out is what it gets as its input. Sums of positions are `int`s, and wrap.

## Main definitions

* `AudioData`, `AudioData.sample` — a buffer, and the sample at a position.
* `wrap` — a sum as an `int`.
* `copy`, `bufSet`, `fillAudiodata`, `swriReallocAudio`
* `SwrContext`, `swrConvert` — the context, and the function.
-/

namespace AudioCrash.Swr

open Audio Grid

variable {α : Type}

/-! ## Buffers -/

/-- `AudioData`: pointers, and the memory they lead into. -/
structure AudioData (α : Type) where
  ch : ℕ → ℤ
  mem : ℤ → α
  chCount : ℕ
  bps : ℕ
  /-- The number of samples of a channel that there is room for. -/
  count : ℕ
  planar : Bool

/-- `set_audiodata_fmt`, for a buffer without memory. -/
def setAudiodataFmt (fmt : SampleFormat) (chCount : ℕ) (zero : α) : AudioData α where
  ch := fun _ => 0
  mem := fun _ => zero
  chCount := chCount
  bps := fmt.bytesPerSample
  count := 0
  planar := if chCount = 1 then true else fmt.isPlanar

namespace AudioData

/-- Where the value of a channel stands. -/
def cell (a : AudioData α) (c i : ℕ) : ℤ :=
  if a.planar then a.ch c + i * a.bps else a.ch 0 + ((i * a.chCount + c : ℕ) : ℤ) * a.bps

/-- The values of all channels at one position. -/
def sample (a : AudioData α) (i : ℕ) : Sample α := fun c => a.mem (a.cell c i)

/-- The first `n` samples. -/
def samples (a : AudioData α) (n : ℕ) : List (Sample α) := (List.range n).map a.sample

/-- The same layout. -/
def SameLayout (a b : AudioData α) : Prop :=
  a.chCount = b.chCount ∧ a.bps = b.bps ∧ a.planar = b.planar

end AudioData

/-- `memcpy(dst, src, n * width)`. -/
def memcpy (width n : ℕ) (dst src : ℤ) (srcMem mem : ℤ → α) : ℤ → α :=
  updateRow n (fun i => dst + i * width) (fun i _ => srcMem (src + i * width)) mem

/-- The memory of `out` after `copy(out, in, count)`. -/
def copy (out inp : AudioData α) (count : ℕ) : ℤ → α :=
  if out.planar then
    forLoop 0 out.chCount (fun c mem => memcpy out.bps count (out.ch c) (inp.ch c) inp.mem mem)
      out.mem
  else memcpy out.bps (count * out.chCount) (out.ch 0) (inp.ch 0) inp.mem out.mem

/-- `buf_set(out, in, count)`: `out` leads to the samples of `in` from `count` on. -/
def bufSet (out inp : AudioData α) (count : ℕ) : AudioData α :=
  { out with
    mem := inp.mem
    ch := fun c =>
      if c < out.chCount then
        if inp.planar then inp.ch c + count * out.bps
        else inp.ch 0 + ((c + count * out.chCount : ℕ) : ℤ) * out.bps
      else out.ch c }

/-- `fill_audiodata(out, in_arg)`, for the plane pointers of a decoded frame. -/
def fillAudiodata (out : AudioData α) (f : AVFrame α) (inArg : ℕ → ℤ) : AudioData α :=
  { out with
    mem := f.mem
    ch := fun c =>
      if c < out.chCount then
        if out.planar then inArg c else inArg 0 + c * out.bps
      else out.ch c }

/-- `INT_MAX`. -/
def intMax : ℕ := 2 ^ 31 - 1

/-- A sum that does not fit into an `int` wraps. -/
def wrap (n : ℕ) : ℤ := (n : ℤ).bmod (2 ^ 32)

/-- `AVERROR(EINVAL)`. -/
def einval : ℤ := -22

/-- `AVERROR(ENOMEM)`. -/
def enomem : ℤ := -12

/-- `av_malloc`: sizes are limited, and the system has memory for some of them. -/
def avMalloc (available : ℕ → Bool) (size : ℕ) : Bool := size ≤ intMax && available size

/-- The pointers into memory that has just been allocated: `countb` bytes apart where the
channels have planes of their own. -/
def allocated (zero : α) (a : AudioData α) (countb : ℕ) : AudioData α :=
  { a with
    ch := fun i =>
      if i < a.chCount then ((i * if a.planar then countb else a.bps : ℕ) : ℤ) else a.ch i
    mem := fun _ => zero }

/-- The part of `swri_realloc_audio` after the allocation: the samples of all of the old room
are copied. -/
def reallocated (zero : α) (a : AudioData α) (count countb : ℕ) : AudioData α :=
  let new := allocated zero a countb
  { new with mem := copy new a a.count, count := count }

/-- `swri_realloc_audio`: room for `count` samples of a channel. -/
def swriReallocAudio (available : ℕ → Bool) (zero : α) (a : AudioData α) (count : ℤ) :
    Except ℤ (AudioData α) :=
  if count < 0 || (intMax / 2 / a.bps / a.chCount : ℕ) < count then .error einval
  else if count ≤ a.count then .ok a
  else
    let count := 2 * count.toNat
    let countb := align32 (count * a.bps)
    if avMalloc available (countb * a.chCount) then .ok (reallocated zero a count countb)
    else .error enomem

/-! ## The function -/

/-- The fields of `SwrContext` that `swr_convert` uses at equal rates. -/
structure SwrContext (α : Type) where
  inBuffer : AudioData α
  inBufferIndex : ℕ
  inBufferCount : ℕ

namespace SwrContext

/-- `swr_init`. -/
def init (fmt : SampleFormat) (chCount : ℕ) (zero : α) : SwrContext α where
  inBuffer := setAudiodataFmt fmt chCount zero
  inBufferIndex := 0
  inBufferCount := 0

/-- The part of `swr_convert` that takes samples out of the buffer, and what is left of
`out_count`. -/
def takeOut (s : SwrContext α) (outCount : ℕ) : List (Sample α) × SwrContext α × ℕ :=
  let size := min outCount s.inBufferCount
  if size = 0 then ([], s, outCount)
  else
    let tmp := bufSet s.inBuffer s.inBuffer s.inBufferIndex
    let count := s.inBufferCount - size
    let index := s.inBufferIndex + size
    (tmp.samples size,
      { s with inBufferCount := count, inBufferIndex := if count = 0 then 0 else index },
      outCount - size)

/-- The buffer ends too early, and what has been taken out leaves enough room for `n` more
samples. -/
def moves (s : SwrContext α) (n : ℕ) : Bool :=
  s.inBuffer.count < wrap (s.inBufferIndex + s.inBufferCount + n) &&
    wrap (s.inBufferCount + n) ≤ s.inBufferIndex

/-- The samples that wait are copied to the front. -/
def moveToFront (s : SwrContext α) : SwrContext α :=
  let tmp := bufSet s.inBuffer s.inBuffer s.inBufferIndex
  { s with
    inBuffer := { s.inBuffer with mem := copy s.inBuffer tmp s.inBufferCount }
    inBufferIndex := 0 }

/-- The part of `swr_convert` that makes room for `n` more samples. -/
def makeRoom (available : ℕ → Bool) (zero : α) (s : SwrContext α) (n : ℕ) :
    Except ℤ (SwrContext α) :=
  if s.moves n then .ok s.moveToFront
  else
    match swriReallocAudio available zero s.inBuffer
        (wrap (s.inBufferIndex + s.inBufferCount + n)) with
    | .error code => .error code
    | .ok buffer => .ok { s with inBuffer := buffer }

/-- The part of `swr_convert` that copies `n` samples to the end of the buffer. -/
def putIn (s : SwrContext α) (inp : AudioData α) (n : ℕ) : SwrContext α :=
  let tmp := bufSet s.inBuffer s.inBuffer (s.inBufferIndex + s.inBufferCount)
  { s with
    inBuffer := { s.inBuffer with mem := copy tmp inp n }
    inBufferCount := s.inBufferCount + n }

/-- `swr_convert(s, out, out_count, NULL, 0)`: the samples taken out. -/
def swrDrain (s : SwrContext α) (outCount : ℕ) : List (Sample α) × SwrContext α :=
  if s.inBufferCount = 0 then ([], s)
  else
    let (out, s, _) := s.takeOut outCount
    (out, s)

/-- `swr_convert`, which takes samples out, and puts in the samples of a frame if there is one:
its error, or the samples taken out. -/
def swrConvert (available : ℕ → Bool) (zero : α) (s : SwrContext α) (outCount : ℕ)
    (input : Option (AVFrame α × (ℕ → ℤ) × ℕ)) : Except ℤ (List (Sample α) × SwrContext α) :=
  match input with
  | none => .ok (s.swrDrain outCount)
  | some (f, inArg, inCount) =>
    let inp := fillAudiodata s.inBuffer f inArg
    let (out, s, outCount) := s.takeOut outCount
    if inCount = 0 then .ok (out, s)
    else
      match if outCount < inCount then s.makeRoom available zero (inCount - outCount)
          else .ok s with
      | .error code => .error code
      | .ok s =>
        -- what the caller still wants is passed through
        let size := if outCount = 0 then 0 else min inCount outCount
        let out := out ++ inp.samples size
        if inCount - size = 0 then .ok (out, s)
        else .ok (out, s.putIn (bufSet inp inp size) (inCount - size))

/-- `swr_get_out_samples(s, 0)`. -/
def swrGetOutSamples (s : SwrContext α) : ℕ := s.inBufferCount

end SwrContext
end AudioCrash.Swr
