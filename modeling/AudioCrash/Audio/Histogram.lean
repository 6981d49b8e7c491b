import AudioCrash.Lib.Counters
import AudioCrash.Audio.Scaling
import Mathlib.Data.Rat.Floor

/-!
# The histogram of the decoded frames

`filter_frame_f` counts the samples of a frame by their amplitude, quantised to 16 bits and a
sign. `print_stats` turns the table into the mean volume, in unsigned 64-bit arithmetic. A
float is a rational. The conversion to `int` truncates; it is a parameter where an `int` does not
hold the result, and so is the logarithm.

## Main definitions

* `IntCast`, `quantize`, `filterFrameF`, `histogramOf` — the table of a list of frames.
* `Stats`, `printStats` — the mean volume.
* `sampleValues`, `histogramOf_apply` — the table is a count over the values of the samples.
* `volume_histogram` — it depends on the values only.
-/

namespace AudioCrash.Audio

open Counters

/-! ## Counting the samples of a frame -/

/-- The integer part. -/
def truncate (x : ℚ) : ℤ := if 0 ≤ x then ⌊x⌋ else ⌈x⌉

/-- An `int` holds the integer part. -/
def FitsInt (x : ℚ) : Prop := -2 ^ 31 ≤ truncate x ∧ truncate x < 2 ^ 31

instance (x : ℚ) : Decidable (FitsInt x) := inferInstanceAs (Decidable (_ ∧ _))

/-- `static_cast<int>`, which is undefined where an `int` does not hold the result. -/
structure IntCast where
  toInt : ℚ → ℤ
  of_fits : ∀ x, FitsInt x → toInt x = truncate x
  range : ∀ x, -2 ^ 31 ≤ toInt x ∧ toInt x < 2 ^ 31

/-- The conversion of x86-64. -/
def IntCast.x86 : IntCast where
  toInt x := if FitsInt x then truncate x else -2 ^ 31
  of_fits x hx := if_pos hx
  range x := by
    split_ifs with hx
    · exact hx
    · exact ⟨le_rfl, by decide⟩

section bin
variable (cast : IntCast)

/-- `his`, after clamping. -/
def quantize (x : ℚ) : ℤ := max (min (cast.toInt (x * 0x8000)) 0x8000) (-0x8000)

/-- The counter of a sample. -/
def bin (x : ℚ) : ℕ := (quantize cast x + 0x8000).toNat

theorem quantize_le (x : ℚ) : quantize cast x ≤ 0x8000 := by
  simp only [quantize]
  omega

theorem le_quantize (x : ℚ) : -0x8000 ≤ quantize cast x := by
  simp only [quantize]
  omega

theorem truncate_lt_iff (x : ℚ) : truncate (x * 0x8000) < 0x8000 ↔ x < 1 := by
  simp only [truncate]
  split_ifs with hx
  · rw [Int.floor_lt]
    push_cast
    constructor <;> intro h <;> linarith
  · have hneg : ⌈x * 0x8000⌉ ≤ 0 := Int.ceil_le.2 (by push_cast; linarith)
    constructor
    · intro _
      linarith
    · intro _
      omega

/-- The last counter is that of the values that are not converted to less. -/
theorem bin_lt_iff (x : ℚ) : bin cast x < 0x10000 ↔ cast.toInt (x * 0x8000) < 0x8000 := by
  simp only [bin, quantize]
  omega

/-- Of the values that an `int` holds, these are the values from 1 on. -/
theorem bin_lt_iff_of_fits {x : ℚ} (hx : FitsInt (x * 0x8000)) : bin cast x < 0x10000 ↔ x < 1 := by
  rw [bin_lt_iff, cast.of_fits _ hx, truncate_lt_iff]

end bin

/-- `filter_frame_f`, for a frame of floats. -/
def filterFrameF (cast : IntCast) (format : SampleFormat) (nb_channels : ℕ)
    (histogram : ℕ → UInt64) (samples : AVFrame ℚ) : ℕ → UInt64 :=
  let (nb_planes, nb_samples) := planesOf format samples.nbSamples nb_channels
  forLoop 0 nb_planes (fun plane histogram =>
    forLoop 0 nb_samples (fun i histogram =>
      increment (bin cast) histogram (samples.mem (pcm samples.data plane i))) histogram) histogram

/-- The table after a list of frames. -/
def histogramOf (cast : IntCast) (format : SampleFormat) (nb_channels : ℕ)
    (frames : List (AVFrame ℚ)) : ℕ → UInt64 :=
  frames.foldl (filterFrameF cast format nb_channels) fun _ => 0

/-! ## The mean volume -/

/-- `av_log2`. -/
def avLog2 (v : UInt64) : ℕ := Nat.log2 v.toNat

/-- `(i - 0x8000) * (i - 0x8000)`. -/
def square (i : ℕ) : ℕ := (((i : ℤ) - 0x8000) * (i - 0x8000)).toNat

/-- `logdb`, over the function `log10` of the C library. -/
def logdb (log10 : ℚ → ℚ) (v : UInt64) : ℚ :=
  if v = 0 then 91 else -log10 (v.toNat / (0x8000 * 0x8000)) * 10

/-- The variables of `print_stats` before the division. -/
structure Stats where
  nbSamples : UInt64
  shift : ℕ
  nbSamplesShift : UInt64
  power : UInt64
  deriving DecidableEq, Repr

/-- The two loops of `print_stats`, over the first `n` counters. The function is left between
them if the total is zero. -/
def Stats.upTo (n : ℕ) (histogram : ℕ → UInt64) : Stats :=
  let nb_samples := forLoop 0 n (fun i nb_samples => nb_samples + histogram i) 0
  let shift := avLog2 (nb_samples >>> 33)
  let sums := forLoop 0 n (fun i sums =>
    (sums.1 + (histogram i >>> UInt64.ofNat shift),
      sums.2 + UInt64.ofNat (square i) * (histogram i >>> UInt64.ofNat shift))) (0, 0)
  ⟨nb_samples, shift, sums.1, sums.2⟩

/-- The loops of `print_stats`. -/
def Stats.of (histogram : ℕ → UInt64) : Stats := Stats.upTo 0x10000 histogram

/-- `(power + nb_samples_shift / 2) / nb_samples_shift`. -/
def Stats.mean (s : Stats) : UInt64 := (s.power + s.nbSamplesShift / 2) / s.nbSamplesShift

/-- `print_stats`. -/
def printStats (log10 : ℚ → ℚ) (histogram : ℕ → UInt64) : ℚ :=
  let s := Stats.of histogram
  if s.nbSamples = 0 then 0
  else if s.nbSamplesShift = 0 then 0
  else if 0x8000 * 0x8000 < s.mean then 0
  else -logdb log10 s.mean

/-- `mean_d` of `AudioVolume::run`, from the frames decoded. -/
def meanVolume (cast : IntCast) (log10 : ℚ → ℚ) (format : SampleFormat) (nb_channels : ℕ)
    (frames : List (AVFrame ℚ)) : ℚ :=
  printStats log10 (histogramOf cast format nb_channels frames)

/-! ## The values of the samples -/

/-- A format whose samples are floats. -/
def SampleFormat.IsFloat (fmt : SampleFormat) : Prop := fmt = .flt ∨ fmt = .fltp

instance (fmt : SampleFormat) : Decidable fmt.IsFloat :=
  inferInstanceAs (Decidable (fmt = .flt ∨ fmt = .fltp))

theorem SampleFormat.IsFloat.bytesPerSample {fmt : SampleFormat} (h : fmt.IsFloat) :
    fmt.bytesPerSample = 4 := by
  rcases h with rfl | rfl <;> rfl

/-- The values of all channels of some samples. -/
def channelValues (nb_channels : ℕ) (xs : List (Sample ℚ)) : Multiset ℚ :=
  (xs : Multiset (Sample ℚ)).bind fun v => (Multiset.range nb_channels).map v

/-- The values of the samples of some frames. -/
def sampleValues (fmt : SampleFormat) (nb_channels : ℕ) (frames : List (AVFrame ℚ)) : Multiset ℚ :=
  channelValues nb_channels (sampleFrames fmt nb_channels frames)

/-- The floats that `filter_frame_f` reads. -/
def scalars (fmt : SampleFormat) (nb_channels : ℕ) (f : AVFrame ℚ) : List ℚ :=
  (List.range (planesOf fmt f.nbSamples nb_channels).1).flatMap fun plane =>
    (List.range (planesOf fmt f.nbSamples nb_channels).2).map fun i =>
      f.mem (pcm f.data plane i)

section values
variable (cast : IntCast) (fmt : SampleFormat) (C : ℕ) (frames frames' : List (AVFrame ℚ))
  (f : AVFrame ℚ)

@[simp] theorem sampleValues_append :
    sampleValues fmt C (frames ++ frames') =
      sampleValues fmt C frames + sampleValues fmt C frames' := by
  simp only [sampleValues, channelValues, sampleFrames_append]
  rw [← Multiset.coe_add, Multiset.add_bind]

theorem mem_sampleValues {y : ℚ} :
    y ∈ sampleValues fmt C frames ↔ ∃ v ∈ sampleFrames fmt C frames, ∃ c < C, v c = y := by
  simp [sampleValues, channelValues]

theorem card_sampleValues : (sampleValues fmt C frames).card = totalSamples frames * C := by
  simp [sampleValues, channelValues, Multiset.card_bind]

/-- Going through `n` times `C` indices in two loops. -/
theorem map_range_mul {β : Type} (g : ℕ → β) (n C : ℕ) :
    (Multiset.range (n * C)).map g =
      (Multiset.range n).bind fun i => (Multiset.range C).map fun c => g (i * C + c) := by
  induction n with
  | zero => simp
  | succ n ih =>
    rw [Nat.succ_mul, Multiset.range_add, Multiset.map_add, ih, Multiset.range_succ,
      Multiset.cons_bind, add_comm, Multiset.map_map]
    rfl

/-- **Every value of a frame of floats is read once**, in planar and in packed storage. -/
theorem coe_scalars (h : fmt.IsFloat) :
    (scalars fmt C f : Multiset ℚ) = sampleValues fmt C [f] := by
  have hbytes := h.bytesPerSample
  have hread : (scalars fmt C f : Multiset ℚ) =
      (Multiset.range (planesOf fmt f.nbSamples C).1).bind fun plane =>
        (Multiset.range (planesOf fmt f.nbSamples C).2).map fun i =>
          f.mem (pcm f.data plane i) := by
    rw [scalars, ← Multiset.coe_bind]
    rfl
  have hvalues : sampleValues fmt C [f] =
      (Multiset.range f.nbSamples).bind fun i => (Multiset.range C).map fun c =>
        if fmt.isPlanar then f.mem (f.data c + i * fmt.bytesPerSample)
        else f.mem (f.data 0 + (i * C + c) * fmt.bytesPerSample) := by
    simp only [sampleValues, channelValues, sampleFrames, List.flatMap_singleton, AVFrame.samples]
    rw [← Multiset.map_coe, Multiset.bind_map]
    rfl
  rw [hread, hvalues, hbytes]
  cases hp : fmt.isPlanar
  · simp only [planesOf, hp, Bool.not_false, if_true, Multiset.range_succ, Multiset.range_zero]
    rw [Multiset.cons_bind, Multiset.zero_bind, add_zero, map_range_mul]
    refine Multiset.bind_congr fun i _ => Multiset.map_congr rfl fun c _ => ?_
    have haddr : pcm f.data 0 (i * C + c) = f.data 0 + (i * C + c) * 4 := by
      simp only [pcm]
      push_cast
      ring
    simp [haddr]
  · simp only [planesOf, hp, Bool.not_true, if_true, Bool.false_eq_true, if_false]
    rw [Multiset.bind_map_comm]
    refine Multiset.bind_congr fun i _ => Multiset.map_congr rfl fun c _ => ?_
    simp [pcm, mul_comm]

theorem filterFrameF_eq (histogram : ℕ → UInt64) :
    filterFrameF cast fmt C histogram f =
      (scalars fmt C f).foldl (increment (bin cast)) histogram := by
  simp [filterFrameF, scalars, forLoop, List.foldl_flatMap, List.foldl_map, List.range_eq_range']

/-- A counter is the number of floats read in its bin. -/
theorem histogramOf_eq_countP (k : ℕ) :
    histogramOf cast fmt C frames k =
      UInt64.ofNat ((frames.flatMap (scalars fmt C)).countP fun y => bin cast y = k) := by
  have hfold : histogramOf cast fmt C frames =
      (frames.flatMap (scalars fmt C)).foldl (increment (bin cast)) fun _ => 0 := by
    rw [histogramOf, List.foldl_flatMap]
    exact congrArg (fun step => frames.foldl step fun _ => 0)
      (funext fun histogram => funext fun f => filterFrameF_eq cast fmt C f histogram)
  rw [hfold, foldl_increment, UInt64.zero_add]

/-- **The table of a concatenation is the sum of the tables.** -/
theorem histogramOf_append (k : ℕ) :
    histogramOf cast fmt C (frames ++ frames') k =
      histogramOf cast fmt C frames k + histogramOf cast fmt C frames' k := by
  rw [histogramOf_eq_countP, histogramOf_eq_countP, histogramOf_eq_countP, List.flatMap_append,
    List.countP_append, UInt64.ofNat_add]

/-- The order of the frames does not matter. -/
theorem histogramOf_perm {frames frames' : List (AVFrame ℚ)} (h : frames.Perm frames') :
    histogramOf cast fmt C frames = histogramOf cast fmt C frames' := by
  funext k
  rw [histogramOf_eq_countP, histogramOf_eq_countP, (h.flatMap_right _).countP_eq]

/-- **A counter is the number of values in its bin.** -/
theorem histogramOf_apply (h : fmt.IsFloat) (k : ℕ) :
    histogramOf cast fmt C frames k =
      UInt64.ofNat ((sampleValues fmt C frames).countP fun y => bin cast y = k) := by
  induction frames using List.reverseRecOn with
  | nil => rfl
  | append_singleton frames f ih =>
    rw [histogramOf_append, ih, sampleValues_append, Multiset.countP_add, UInt64.ofNat_add,
      ← coe_scalars fmt C f h, Multiset.coe_countP, histogramOf_eq_countP, List.flatMap_singleton]

end values

/-! ## The gain of a run -/

/-- What a run makes of a value, by its table. -/
def tableGain (pow : ℚ → ℚ → ℚ) (log10 : ℚ → ℚ) (volume : ℚ) (histogram : ℕ → UInt64) : ℚ → ℚ :=
  AudioVolume.scaled (pow 10 ((volume - printStats log10 histogram) / 20))

/-- Every sample handed over has been changed by one function of its value. -/
def ScaledBy (x : Context ℚ) (s : State ℚ) (gain : ℚ → ℚ) : Prop :=
  ∀ h ∈ handed s.log, ∀ p < x.C, ∀ i (hi : i < h.1.length),
    h.2.mem (pcm (planeAt x.F) p i) = gain (h.1[i] p)

section volume
variable {cast : IntCast} {pow : ℚ → ℚ → ℚ} {log10 : ℚ → ℚ} {volume : ℚ} {x y : Context ℚ}

/-- A run leaves the table of the frames decoded, and scales by the gain derived from it. -/
theorem run_scaledBy (hx : x.pipeline = audioVolume pow (meanVolume cast log10 x.fmt x.C) volume)
    {events : List (Event ℚ)} {mem : ℤ → ℚ} {handle : ℕ → ℤ} {s : State ℚ}
    (hs : run x events (State.init x mem handle) = Flow.ret (0, s)) :
    s.decoded = allFrames events ∧
      ScaledBy x s (tableGain pow log10 volume (histogramOf cast x.fmt x.C s.decoded)) := by
  rcases exists_next_of_run x hs with ⟨s', hs'⟩
  have hdecoded := (run_taken x hs' hs).1
  have hscaled := run_scaled (x := x) (by rw [hx]; rfl) (by rw [hx]; rfl) events mem handle
  rw [hs, Flow.holds_ret] at hscaled
  refine ⟨hdecoded, ?_⟩
  intro h hh p hp i hi
  rcases List.mem_iff_getElem?.1 hh with ⟨j, hj⟩
  rw [(hscaled j h hj).cell p hp i hi, hx, hdecoded]
  rfl

/-- **The table that a run of `AudioVolume` leaves, and the gain derived from it, depend on
the values of the samples only**: not on the frames they come in, on their order, on the
channels, or on the storage. -/
theorem volume_histogram
    (hx : x.pipeline = audioVolume pow (meanVolume cast log10 x.fmt x.C) volume)
    (hy : y.pipeline = audioVolume pow (meanVolume cast log10 y.fmt y.C) volume)
    (hxf : x.fmt.IsFloat) (hyf : y.fmt.IsFloat) {events events' : List (Event ℚ)}
    {mem mem' : ℤ → ℚ} {handle handle' : ℕ → ℤ} {s s' : State ℚ}
    (hs : run x events (State.init x mem handle) = Flow.ret (0, s))
    (hs' : run y events' (State.init y mem' handle') = Flow.ret (0, s')) :
    (sampleValues x.fmt x.C (allFrames events) = sampleValues y.fmt y.C (allFrames events') →
      histogramOf cast x.fmt x.C s.decoded = histogramOf cast y.fmt y.C s'.decoded ∧
      ScaledBy x s (tableGain pow log10 volume (histogramOf cast x.fmt x.C s.decoded)) ∧
      ScaledBy y s' (tableGain pow log10 volume (histogramOf cast x.fmt x.C s.decoded))) ∧
    (∀ frames frames', frames.Perm frames' →
      histogramOf cast x.fmt x.C frames = histogramOf cast x.fmt x.C frames') ∧
    (∀ frames frames' k, histogramOf cast x.fmt x.C (frames ++ frames') k =
      histogramOf cast x.fmt x.C frames k + histogramOf cast x.fmt x.C frames' k) := by
  rcases run_scaledBy hx hs with ⟨hdecoded, hscaled⟩
  rcases run_scaledBy hy hs' with ⟨hdecoded', hscaled'⟩
  refine ⟨?_, fun _ _ => histogramOf_perm cast x.fmt x.C, histogramOf_append cast x.fmt x.C⟩
  intro hvalues
  have htable : histogramOf cast x.fmt x.C s.decoded = histogramOf cast y.fmt y.C s'.decoded := by
    funext k
    rw [hdecoded, hdecoded', histogramOf_apply _ _ _ _ hxf, histogramOf_apply _ _ _ _ hyf, hvalues]
  refine ⟨htable, hscaled, ?_⟩
  rw [htable]
  exact hscaled'

end volume

/-- A run of `AudioVolume` in which no call fails. -/
def volumeContext (fmt : SampleFormat) (nb_channels : ℕ) : Context ℚ where
  pipeline := audioVolume (fun _ _ => 2) (meanVolume .x86 (fun _ => 0) fmt nb_channels) 0
  ffmpeg := (Program.volume.context nb_channels 1 1).ffmpeg
  fmt := fmt
  C := nb_channels
  streamIndex := 0
  F := 1

/-- A packed stereo sample, and two planar mono frames with the same values. -/
theorem volume_histogram_stereo :
    ∃ s s', run (volumeContext .flt 2) [.accepted [⟨1, fun _ => 0, fun a => a / 8⟩]]
        (State.init (volumeContext .flt 2) (fun _ => 0) fun _ => 0) = Flow.ret (0, s) ∧
      run (volumeContext .fltp 1)
        [.accepted [⟨1, fun _ => 0, fun _ => 1 / 2⟩, ⟨1, fun _ => 0, fun _ => 0⟩]]
        (State.init (volumeContext .fltp 1) (fun _ => 0) fun _ => 0) = Flow.ret (0, s') ∧
      histogramOf .x86 .flt 2 s.decoded = histogramOf .x86 .fltp 1 s'.decoded := by
  have hhealthy := Program.volume.context_healthy 1 1 1
  rcases run_eq_ret (volumeContext .flt 2) hhealthy le_rfl
    [.accepted [⟨1, fun _ => 0, fun a => a / 8⟩]] (fun _ => 0) (fun _ => 0) with ⟨s, hs⟩
  rcases run_eq_ret (volumeContext .fltp 1) hhealthy le_rfl
    [.accepted [⟨1, fun _ => 0, fun _ => 1 / 2⟩, ⟨1, fun _ => 0, fun _ => 0⟩]] (fun _ => 0)
    (fun _ => 0) with ⟨s', hs'⟩
  refine ⟨s, s', hs, hs', ?_⟩
  exact ((volume_histogram rfl rfl (by decide) (by decide) hs hs').1 (by decide +kernel)).1

end AudioCrash.Audio
