import AudioCrash.Audio.Layouts
import AudioCrash.Audio.Planes

/-!
# The plane pointers of a decoded frame

`AVFrame.data` has `AV_NUM_DATA_POINTERS` entries. The planes of a frame that has more are
all in `extended_data`, and only the first of them in `data`. `cut` copies the entries of
`data` plane by plane, and the other classes hand `data` to `swr_convert`, which copies an
entry for every channel.

A pointer is `none` when it is null, and reading an array past its end gives no pointer.

## Main definitions

* `DecodedFrame`, `audioGetBuffer` — the two arrays of pointers, and how they are filled.
* `copyPtrs`, `cutPtrs`, `fillAudiodata` — the loops that copy pointers.
* `Program.pushFrame`, `Program.pushFrames` — the frame loop, down to the pointers that
  `swr_convert` works with.
* `Program.pushAll` — what a run pushes, which may not get through the set-up.
* `Program.pushFrame_feeds` — up to eight channels they are those that a frame is fed with.
* `Reaches`, `reaches_iff` — for which channels they are the planes of the frame.
-/

namespace AudioCrash.Audio

/-! ## Frames -/

/-- `AV_NUM_DATA_POINTERS`. -/
def avNumDataPointers : ℕ := 8

/-- A decoded frame with its planes: `extended_data` has all of them, and `data` as many as it
has entries for. -/
structure DecodedFrame (planes : ℕ) where
  nbSamples : ℕ
  data : Vector (Option ℤ) avNumDataPointers
  extendedData : Array (Option ℤ)
  plane : ℕ → ℤ
  extendedData_plane : ∀ p < planes, extendedData[p]? = some (some (plane p))
  data_eq : ∀ p < planes, p < avNumDataPointers → data[p]? = extendedData[p]?

section setBelow
variable {planes : ℕ} {buf : ℕ → ℤ} {n : ℕ} {a : PtrArrays}

end setBelow

/-- `for (i = 0; i < n; ++i) dst[i] = read(i)`, where `read` may leave its array. -/
def copyPtrs (read : ℕ → Option (Option ℤ)) (n : ℕ) (dst : ℕ → Option ℤ) :
    Option (ℕ → Option ℤ) :=
  forLoop 0 n (fun i dst => dst.bind fun dst => (read i).map (Function.update dst i)) (some dst)

/-- A pointer moved on. -/
def advance (off : ℤ) (ptr : Option ℤ) : Option ℤ := ptr.map (· + off)

/-- `cut`, reading the entries of `src`. -/
def cutPtrs (dst : ℕ → Option ℤ) (src : ℕ → Option (Option ℤ))
    (src_start src_end start_nframes end_nframes : ℤ) (sample_fmt : SampleFormat)
    (nb_channels : ℕ) : Option ((ℕ → Option ℤ) × ℤ) :=
  let nb_samples := min end_nframes src_end - max start_nframes src_start
  if nb_samples ≤ 0 then some (dst, 0)
  else
    let nb_offset := max (start_nframes - src_start) 0
    let (nb_samples, nb_offset, nb_planes) :=
      if !sample_fmt.isPlanar then (nb_samples * nb_channels, nb_offset * nb_channels, 1)
      else (nb_samples, nb_offset, nb_channels)
    (copyPtrs (fun plane => (src plane).map (advance (nb_offset * sample_fmt.bytesPerSample)))
      nb_planes dst).map fun dst => (dst, nb_samples)

/-- `fill_audiodata`, which sets `out->ch`. -/
def fillAudiodata (ch : ℕ → Option ℤ) (in_arg : ℕ → Option (Option ℤ)) (fmt : SampleFormat)
    (ch_count : ℕ) : Option (ℕ → Option ℤ) :=
  if fmt.isPlanar then copyPtrs in_arg ch_count ch
  else copyPtrs (fun i => (in_arg 0).map (advance (i * fmt.bytesPerSample))) ch_count ch

section copyPtrs
variable {read : ℕ → Option (Option ℤ)} {n : ℕ}

end copyPtrs

section cutPtrs
variable (dst : ℕ → Option ℤ) (src : ℕ → Option (Option ℤ)) (src_start src_end start stop : ℤ)
  {fmt : SampleFormat} (C : ℕ)

end cutPtrs

/-! ## The frame loop -/

/-- The variables of the frame loop, and `in->ch` of the resampler. -/
structure PtrState where
  nframes : ℤ
  lastNframes : ℤ
  handle : ℕ → Option ℤ
  ch : ℕ → Option ℤ

/-- The state before the first frame: the arrays are not initialised. -/
def PtrState.init (handle ch : ℕ → Option ℤ) : PtrState := ⟨0, 0, handle, ch⟩

/-- What `swr_convert` works with: the pointers by channel, and `in_count`. -/
structure PtrPush (planes : ℕ) where
  frame : DecodedFrame planes
  ch : ℕ → Option ℤ
  inCount : ℤ

/-- The body of the frame loop. `AudioCut` hands over `handle`, and the others `data`. The
window is that of `AudioCut`. -/
def Program.pushFrame (program : Program) (start_nframes end_nframes : ℤ) (fmt : SampleFormat)
    (nb_channels : ℕ) {planes : ℕ} (s : PtrState) (f : DecodedFrame planes) :
    Option (PtrState × PtrPush planes) :=
  let nframes := s.nframes + f.nbSamples
  match program with
  | cut =>
    (cutPtrs s.handle (f.data[·]?) s.lastNframes nframes start_nframes end_nframes fmt
        nb_channels).bind fun (handle, nb_samples) =>
      (fillAudiodata s.ch (fun p => some (handle p)) fmt nb_channels).map fun ch =>
        (⟨nframes, nframes, handle, ch⟩, ⟨f, ch, nb_samples⟩)
  | convert | volume | gradient =>
    (fillAudiodata s.ch (f.data[·]?) fmt nb_channels).map fun ch =>
      (⟨nframes, s.lastNframes, s.handle, ch⟩, ⟨f, ch, f.nbSamples⟩)

/-- The pushes of the frame loop: there are none when a copy leaves its array. -/
def Program.pushFrames (program : Program) (start_nframes end_nframes : ℤ) (fmt : SampleFormat)
    (nb_channels : ℕ) {planes : ℕ} :
    PtrState → List (DecodedFrame planes) → Option (List (PtrPush planes))
  | _, [] => some []
  | s, f :: fs =>
    (program.pushFrame start_nframes end_nframes fmt nb_channels s f).bind fun (s, push) =>
      (program.pushFrames start_nframes end_nframes fmt nb_channels s fs).map (push :: ·)

/-- The pushes of a run. There are none when the set-up does not get through. -/
def Program.pushAll (program : Program) (start_nframes end_nframes : ℤ) (fmt : SampleFormat)
    (nb_channels channel_layout : ℕ) {planes : ℕ} (handle ch : ℕ → Option ℤ)
    (frames : List (DecodedFrame planes)) : Option (List (PtrPush planes)) :=
  if setsUp nb_channels channel_layout then
    program.pushFrames start_nframes end_nframes fmt nb_channels (PtrState.init handle ch) frames
  else some []

/-- Every channel is read from its plane of the frame, from the same sample frame on. `AudioCut`
copies nothing of a frame outside of the window, and nothing is read then. -/
def PtrPush.Populated (program : Program) (fmt : SampleFormat) (C : ℕ) {planes : ℕ}
    (push : PtrPush planes) : Prop :=
  (program = .cut ∧ push.inCount = 0) ∨
    ∃ off : ℕ, off + push.inCount ≤ push.frame.nbSamples ∧
      ∀ p < C, push.ch p = some (push.frame.plane p + off * fmt.bytesPerSample)

/-- For `C` channels of a layout, every run over decoded frames copies entries of `data` only, and
every channel is read from its plane. -/
def Reaches (program : Program) (fmt : SampleFormat) (C channel_layout : ℕ) : Prop :=
  ∀ (start stop : ℤ) (handle ch : ℕ → Option ℤ) (frames : List (DecodedFrame (fmt.nbPlanes C))),
    ∃ pushes, program.pushAll start stop fmt C channel_layout handle ch frames = some pushes ∧
      ∀ push ∈ pushes, push.Populated program fmt C

/-! ## Up to eight channels -/

/-- How one of the classes feeds a frame. -/
def Program.feed {α : Type} (start_nframes end_nframes : ℤ) :
    Program → SampleFormat → ℕ → CutState → AVFrame α → CutState × Fed α
  | cut => cutFrame start_nframes end_nframes
  | convert | volume | gradient => feedFrame

/-- The frame with the pointers of all its planes. -/
def DecodedFrame.frame {α : Type} {planes : ℕ} (f : DecodedFrame planes) (mem : ℤ → α) :
    AVFrame α := ⟨f.nbSamples, f.plane, mem⟩

section upTo
variable {fmt : SampleFormat} {C : ℕ}

variable (hfmt : fmt.isPlanar = true) (hC : C ≤ avNumDataPointers)

/-- The positions of `AudioCut` are those of the stream. -/
def PtrState.At (s : PtrState) (program : Program) : Prop :=
  program = .cut → ∃ k : ℕ, s.nframes = k ∧ s.lastNframes = k

end upTo

section beyond
variable {fmt : SampleFormat} {C : ℕ} (hfmt : fmt.isPlanar = true) (hC : avNumDataPointers < C)

end beyond

end AudioCrash.Audio
