import AudioCrash.Audio.Wrapping
import Mathlib.Algebra.Order.Ring.Int

/-!
# What the resampler is told to read

The frame loop hands what `cut` returns to `swr_convert` as `in_count`, which is a number of
samples in one channel. For a packed format `cut` returns a number of scalars. The totals, the
length and the offset are `int`s, and any of them can wrap.

## Main definitions

* `CutState32`, `cutFrame32`, `cutFrames32` — the frame loop on `int`s.
* `frameOverlaps` — the overlaps of the frames with the window.
* `PerChannel` — every `in_count` is the overlap, and the resampler reads in the frame.
* `NoneRead`, `CutsInFrame` — what the wrapping leaves of a frame that the window is far from.
-/

namespace AudioCrash.Audio

open Segment

variable {α : Type}

/-! ## The frame loop -/

/-- The variables of the frame loop of `AudioCut::run`. -/
structure CutState32 where
  nframes : Int32
  lastNframes : Int32
  handle : ℕ → ℤ

/-- The body of the frame loop. -/
def cutFrame32 (start_nframes end_nframes : Int32) (fmt : SampleFormat) (nb_channels : Int32)
    (s : CutState32) (f : AVFrame α) : CutState32 × Fed α :=
  let nframes := s.nframes + Int32.ofNat f.nbSamples
  let (handle, nb_samples) :=
    cut32 s.lastNframes nframes start_nframes end_nframes s.handle f.data fmt nb_channels
  (⟨nframes, nframes, handle⟩, ⟨f, handle, nb_samples.toInt⟩)

/-- The pushes of the frame loop. -/
def cutFrames32 (start_nframes end_nframes : Int32) (fmt : SampleFormat) (nb_channels : Int32) :
    CutState32 → List (AVFrame α) → List (Fed α)
  | _, [] => []
  | s, f :: fs =>
    let (s, fed) := cutFrame32 start_nframes end_nframes fmt nb_channels s f
    fed :: cutFrames32 start_nframes end_nframes fmt nb_channels s fs

/-- The state before the first frame: `handle` is not initialised. -/
def CutState32.init (handle : ℕ → ℤ) : CutState32 := ⟨0, 0, handle⟩

/-- Both totals are the position `k`. -/
structure CutState32.At (s : CutState32) (k : ℕ) : Prop where
  nframes : s.nframes.toInt = k
  lastNframes : s.lastNframes.toInt = k

theorem CutState32.at_init (handle : ℕ → ℤ) : (CutState32.init handle).At 0 := ⟨rfl, rfl⟩

/-! ## Samples per channel -/

/-- The overlaps of the window with the frames from position `k` on. -/
def frameOverlaps (start stop : ℤ) : ℕ → List (AVFrame α) → List ℤ
  | _, [] => []
  | k, f :: fs => overlap start stop k (k + f.nbSamples) ::
      frameOverlaps start stop (k + f.nbSamples) fs

/-- The overlaps with the frames add up to the overlap with the stream. -/
theorem sum_frameOverlaps (start stop : ℤ) (k : ℕ) (frames : List (AVFrame α)) :
    (frameOverlaps start stop k frames).sum =
      overlap start stop k (k + totalSamples frames) := by
  induction frames generalizing k with
  | nil =>
    simp only [frameOverlaps, List.sum_nil, totalSamples_nil, overlap]
    omega
  | cons f fs ih =>
    rw [frameOverlaps, List.sum_cons, ih, totalSamples_cons, Nat.cast_add, Nat.cast_add,
      ← Int.add_assoc]
    exact overlap_add start stop (by omega) (by omega)

/-- `swr_convert` reads `in_count` sample frames through the pointers: it reads nothing, or
what it reads of the plane lies in the decoded frame. -/
def Fed.ReadsInFrame (fed : Fed α) (fmt : SampleFormat) (nb_channels p : ℕ) : Prop :=
  fed.inCount = 0 ∨ ∃ off : ℕ, fed.handle p = fed.frame.data p + off * fmt.bytesPerSample ∧
    off + fed.inCount * fmt.unit nb_channels ≤ fed.frame.planeLen fmt nb_channels

/-- Every `in_count` is a number of samples per channel: it is the overlap of the frame with
the window, the reads stay in the frame, and the total is the overlap with the stream. -/
structure PerChannel (start_nframes end_nframes : Int32) (fmt : SampleFormat)
    (nb_channels : Int32) (handle : ℕ → ℤ) (frames : List (AVFrame α)) : Prop where
  counts : (cutFrames32 start_nframes end_nframes fmt nb_channels (.init handle) frames).map
    (·.inCount) = frameOverlaps start_nframes.toInt end_nframes.toInt 0 frames
  reads : ∀ fed ∈ cutFrames32 start_nframes end_nframes fmt nb_channels (.init handle) frames,
    ∀ p < fmt.nbPlanes nb_channels.toInt.toNat, fed.ReadsInFrame fmt nb_channels.toInt.toNat p
  total : ((cutFrames32 start_nframes end_nframes fmt nb_channels (.init handle) frames).map
    (·.inCount)).sum = overlap start_nframes.toInt end_nframes.toInt 0 (totalSamples frames)

/-! ## Where the window is far from a frame -/

/-- A window that ends too far before the frame at position `k` leaves a length of zero after
all: the format is packed, and the channels times the length are a multiple of `2 ^ 32`. -/
def NoneRead (start stop : ℤ) (fmt : SampleFormat) (C k : ℕ) : Prop :=
  stop - max start k < -2 ^ 31 →
    fmt.isPlanar = false ∧ (2 ^ 32 : ℤ) ∣ (stop - max start k) * C

/-- The offset in bytes, for one scalar in a sample frame. -/
def byteOffset (start : ℤ) (fmt : SampleFormat) (k : ℕ) : ℤ :=
  ((start - k) * fmt.bytesPerSample).bmod (2 ^ 32)

/-- A window that starts too far before the frame at position `k` and overlaps it is read in
the frame after all, from the wrapped offset on. -/
def CutsInFrame (start stop : ℤ) (fmt : SampleFormat) (k : ℕ) (f : AVFrame α) : Prop :=
  0 < overlap start stop k (k + f.nbSamples) → start - k < -2 ^ 31 →
    0 ≤ byteOffset start fmt k ∧
      byteOffset start fmt k + overlap start stop k (k + f.nbSamples) * fmt.bytesPerSample ≤
        f.nbSamples * fmt.bytesPerSample

/-! ## One frame -/

/-- One push is per channel. -/
structure Fed.PerChannel (fed : Fed α) (start stop : ℤ) (fmt : SampleFormat) (C k : ℕ) :
    Prop where
  count : fed.inCount = overlap start stop k (k + fed.frame.nbSamples)
  reads : ∀ p < fmt.nbPlanes C, fed.ReadsInFrame fmt C p

/-- A push of nothing reads nothing. -/
theorem Fed.perChannel_iff_of_zero {fed : Fed α} {f : AVFrame α} (hf : fed.frame = f)
    {start stop : ℤ} {fmt : SampleFormat} {C k : ℕ}
    (h : overlap start stop k (k + f.nbSamples) = 0) :
    fed.PerChannel start stop fmt C k ↔ fed.inCount = 0 := by
  constructor
  · intro hper
    rw [hper.count, hf, h]
  · intro hzero
    exact ⟨by rw [hzero, hf, h], fun p _ => Or.inl hzero⟩

/-- What is read from a byte offset on, one scalar in a sample frame. -/
theorem Fed.readsInFrame_iff {fed : Fed α} {fmt : SampleFormat} {C p : ℕ} {b : ℤ}
    (hunit : fmt.unit C = 1) (hcount : 0 < fed.inCount)
    (hptr : fed.handle p = fed.frame.data p + b) (hdvd : (fmt.bytesPerSample : ℤ) ∣ b) :
    fed.ReadsInFrame fmt C p ↔
      0 ≤ b ∧ b + fed.inCount * fmt.bytesPerSample ≤
        fed.frame.nbSamples * fmt.bytesPerSample := by
  have hbytes : (0 : ℤ) < fmt.bytesPerSample := by cases fmt <;> decide
  rw [Fed.ReadsInFrame, AVFrame.planeLen, hunit, hptr, or_iff_right hcount.ne']
  simp only [Nat.cast_one, mul_one]
  constructor
  · rintro ⟨off, hoff, hle⟩
    obtain rfl : b = off * fmt.bytesPerSample := add_left_cancel hoff
    refine ⟨mul_nonneg (Int.natCast_nonneg off) hbytes.le, ?_⟩
    rw [← add_mul]
    exact mul_le_mul_of_nonneg_right hle hbytes.le
  · rintro ⟨hb, hle⟩
    obtain ⟨q, rfl⟩ := hdvd
    have hq : 0 ≤ q := nonneg_of_mul_nonneg_right hb hbytes
    refine ⟨q.toNat, by rw [Int.toNat_of_nonneg hq, mul_comm], ?_⟩
    rw [mul_comm, ← add_mul] at hle
    rw [Int.toNat_of_nonneg hq]
    exact le_of_mul_le_mul_right hle hbytes

theorem bmod_eq_zero_iff (x : ℤ) : x.bmod (2 ^ 32) = 0 ↔ (2 ^ 32 : ℤ) ∣ x := by
  rw [Int.bmod_def]
  split_ifs <;> omega

/-- The bytes of a scalar divide an offset also after it wraps. -/
theorem bytesPerSample_dvd_bmod (fmt : SampleFormat) (x : ℤ) :
    (fmt.bytesPerSample : ℤ) ∣ (x * fmt.bytesPerSample).bmod (2 ^ 32) := by
  have hpow : (fmt.bytesPerSample : ℤ) ∣ ((2 ^ 32 : ℕ) : ℤ) := by cases fmt <;> decide
  have hsub := hpow.trans (Int.dvd_bmod_sub_self (x := x * fmt.bytesPerSample) (m := 2 ^ 32))
  exact (Int.dvd_iff_dvd_of_dvd_sub hsub).2 (dvd_mul_left _ _)

section frame
variable {start stop : Int32} {fmt : SampleFormat} {nb_channels : Int32} {C k : ℕ}
  {s : CutState32} (hs : s.At k) (hC : nb_channels.toInt = C) (hpos : 0 < C) {f : AVFrame α}
  (hsize : f.nbSamples * C * fmt.bytesPerSample < 2 ^ 31)

include hpos hsize in
/-- The frame is small in every unit. -/
theorem nbSamples_lt : f.nbSamples * fmt.unit C < 2 ^ 31 ∧
    f.nbSamples * fmt.bytesPerSample < 2 ^ 31 ∧ f.nbSamples < 2 ^ 31 := by
  have hbytes : 0 < fmt.bytesPerSample := by cases fmt <;> decide
  have hscalars : f.nbSamples * C ≤ f.nbSamples * C * fmt.bytesPerSample :=
    Nat.le_mul_of_pos_right _ hbytes
  have hframe : f.nbSamples ≤ f.nbSamples * C := Nat.le_mul_of_pos_right _ hpos
  have hplane : f.nbSamples * fmt.bytesPerSample ≤ f.nbSamples * C * fmt.bytesPerSample :=
    Nat.mul_le_mul_right _ hframe
  have hunit : f.nbSamples * fmt.unit C ≤ f.nbSamples * C := by
    refine Nat.mul_le_mul_left _ ?_
    unfold SampleFormat.unit
    split_ifs
    · exact hpos
    · exact le_rfl
  omega

include hs in
/-- The total after the frame, as long as it fits. -/
theorem CutState32.At.toInt_add (hnext : k + f.nbSamples < 2 ^ 31) :
    (s.nframes + Int32.ofNat f.nbSamples).toInt = (k + f.nbSamples : ℕ) := by
  rw [Int32.toInt_add, hs.nframes, Int32.toInt_ofNat_of_lt (by omega), Nat.cast_add]
  exact Int.bmod_eq_of_le (by omega) (by omega)

include hs in
theorem cutFrame32_at (hnext : k + f.nbSamples < 2 ^ 31) :
    (cutFrame32 start stop fmt nb_channels s f).1.At (k + f.nbSamples) :=
  ⟨hs.toInt_add hnext, hs.toInt_add hnext⟩

@[simp] theorem cutFrame32_frame :
    (cutFrame32 start stop fmt nb_channels s f).2.frame = f := rfl

/-- The length that the frame loop computes. -/
abbrev frameLength (start stop : Int32) (s : CutState32) (f : AVFrame α) : Int32 :=
  cutLength s.lastNframes (s.nframes + Int32.ofNat f.nbSamples) start stop

/-- A length that is not positive is handed on as zero. -/
theorem cutFrame32_count_of_le (h : (frameLength start stop s f).toInt ≤ 0) :
    (cutFrame32 start stop fmt nb_channels s f).2.inCount = 0 := by
  rw [cutFrame32, cut32_of_le _ _ fmt h]
  rfl

include hC in
theorem cutFrame32_count (h : 0 < (frameLength start stop s f).toInt) :
    (cutFrame32 start stop fmt nb_channels s f).2.inCount =
      ((frameLength start stop s f).toInt * fmt.unit C).bmod (2 ^ 32) :=
  cut32_count _ _ fmt hC h

variable (start stop) in
include hs in
/-- The length of a frame before position `2 ^ 31`. -/
theorem toInt_frameLength (hnext : k + f.nbSamples < 2 ^ 31) :
    (frameLength start stop s f).toInt =
      if -2 ^ 31 ≤ stop.toInt - max start.toInt k then
        min stop.toInt (k + f.nbSamples) - max start.toInt k
      else stop.toInt - max start.toInt k + 2 ^ 32 := by
  have hend := hs.toInt_add hnext
  rw [frameLength, toInt_cutLength start stop (by rw [hs.lastNframes]; omega)
    (by rw [hs.lastNframes, hend]; omega), hs.lastNframes, hend, Nat.cast_add]

include hs hC in
/-- A window that ends too far before the frame. -/
theorem cutFrame32_far (hnext : k + f.nbSamples < 2 ^ 31)
    (hfar : stop.toInt - max start.toInt k < -2 ^ 31) :
    (cutFrame32 start stop fmt nb_channels s f).2.PerChannel start.toInt stop.toInt fmt C k ↔
      fmt.isPlanar = false ∧ (2 ^ 32 : ℤ) ∣ (stop.toInt - max start.toInt k) * C := by
  have hlength := toInt_frameLength start stop hs hnext
  have hstop := stop.le_toInt
  have hstart := start.toInt_lt
  rw [if_neg (by omega)] at hlength
  have hzero : overlap start.toInt stop.toInt k (k + f.nbSamples) = 0 := by
    rw [overlap]
    omega
  rw [Fed.perChannel_iff_of_zero cutFrame32_frame hzero, cutFrame32_count hC (by omega), hlength,
    bmod_eq_zero_iff, add_mul]
  cases hp : fmt.isPlanar
  · rw [SampleFormat.unit_packed hp, Int.dvd_add_left (dvd_mul_right _ _)]
    simp
  · rw [SampleFormat.unit_planar hp]
    simp only [Nat.cast_one, mul_one, Bool.true_eq_false, false_and, iff_false]
    omega

include hs in
/-- Where the pointers lead, one scalar in a sample frame. -/
theorem cutFrame32_ptr (hC : nb_channels.toInt = C) (hunit : fmt.unit C = 1)
    (h : 0 < (frameLength start stop s f).toInt) {p : ℕ} (hp : p < fmt.nbPlanes C) :
    (cutFrame32 start stop fmt nb_channels s f).2.handle p =
      f.data p + if -2 ^ 31 ≤ start.toInt - k then
        (max (start.toInt - k) 0 * fmt.bytesPerSample).bmod (2 ^ 32)
      else byteOffset start.toInt fmt k := by
  have hlast : 0 ≤ s.lastNframes.toInt := by
    rw [hs.lastNframes]
    exact Int.natCast_nonneg k
  have hoffset := toInt_cutOffset start hlast
  rw [hs.lastNframes] at hoffset
  refine (cut32_ptr _ _ fmt hC h hp).trans ?_
  rw [hunit, Nat.cast_one, mul_one, hoffset]
  split_ifs
  · rfl
  · rw [byteOffset, add_mul, mul_comm (2 ^ 32 : ℤ)]
    exact congrArg (f.data p + ·) (Int.add_mul_bmod_self_right _ _ (2 ^ 32))

section near
variable (hnext : k + f.nbSamples < 2 ^ 31)
  (hover : 0 < overlap start.toInt stop.toInt k (k + f.nbSamples))
  (hlength : (frameLength start stop s f).toInt =
    overlap start.toInt stop.toInt k (k + f.nbSamples))

include hC hpos hsize hover hlength in
/-- The length of an overlap does not wrap in the unit of the format. -/
theorem cutFrame32_count_of_overlap :
    (cutFrame32 start stop fmt nb_channels s f).2.inCount =
      overlap start.toInt stop.toInt k (k + f.nbSamples) * fmt.unit C := by
  have hle : overlap start.toInt stop.toInt k (k + f.nbSamples) ≤ f.nbSamples := by
    simp only [overlap] at hover ⊢
    omega
  have hmul := mul_le_mul_of_nonneg_right hle (Int.natCast_nonneg (fmt.unit C))
  have hnonneg := mul_nonneg hover.le (Int.natCast_nonneg (fmt.unit C))
  have hsmall : (f.nbSamples * fmt.unit C : ℤ) < 2 ^ 31 := mod_cast (nbSamples_lt hpos hsize).1
  rw [cutFrame32_count hC (by omega), hlength]
  exact Int.bmod_eq_of_le (by omega) (by omega)

include hs hC hpos hsize hover hlength in
/-- One scalar in a sample frame: only an offset that wraps leads out of the frame. -/
theorem cutFrame32_reads_iff (hunit : fmt.unit C = 1) :
    (∀ p < fmt.nbPlanes C,
        (cutFrame32 start stop fmt nb_channels s f).2.ReadsInFrame fmt C p) ↔
      CutsInFrame start.toInt stop.toInt fmt k f := by
  have hcount : (cutFrame32 start stop fmt nb_channels s f).2.inCount =
      overlap start.toInt stop.toInt k (k + f.nbSamples) * fmt.unit C :=
    cutFrame32_count_of_overlap hC hpos hsize hover hlength
  rw [hunit, Nat.cast_one, mul_one] at hcount
  have hplane : 0 < fmt.nbPlanes C := by
    unfold SampleFormat.nbPlanes
    split_ifs
    · exact hpos
    · exact one_pos
  have hptr := fun p (hp : p < fmt.nbPlanes C) =>
    cutFrame32_ptr hs hC hunit (hlength ▸ hover) hp
  have hin : max (start.toInt - k) 0 + overlap start.toInt stop.toInt k (k + f.nbSamples) ≤
      f.nbSamples := by
    simp only [overlap] at hover ⊢
    omega
  have hnonneg : 0 ≤ max (start.toInt - k) 0 * (fmt.bytesPerSample : ℤ) :=
    mul_nonneg (le_max_right _ _) (Int.natCast_nonneg _)
  have hle := mul_le_mul_of_nonneg_right hin (Int.natCast_nonneg fmt.bytesPerSample)
  have hoffset : max (start.toInt - k) 0 * (fmt.bytesPerSample : ℤ) < 2 ^ 31 := by
    have hsmall : (f.nbSamples * fmt.bytesPerSample : ℤ) < 2 ^ 31 :=
      mod_cast (nbSamples_lt hpos hsize).2.1
    have hpart := mul_nonneg hover.le (Int.natCast_nonneg fmt.bytesPerSample)
    rw [add_mul] at hle
    omega
  by_cases hnear : -2 ^ 31 ≤ start.toInt - k
  · refine iff_of_true (fun p hp => ?_) fun _ hwrap => absurd hwrap (not_lt.2 hnear)
    have hto := hptr p hp
    rw [if_pos hnear, Int.bmod_eq_of_le (by omega) (by omega)] at hto
    rw [Fed.readsInFrame_iff hunit (hcount ▸ hover) hto (dvd_mul_left _ _), hcount, ← add_mul]
    exact ⟨hnonneg, hle⟩
  · have hreads : ∀ p < fmt.nbPlanes C,
        ((cutFrame32 start stop fmt nb_channels s f).2.ReadsInFrame fmt C p ↔
          0 ≤ byteOffset start.toInt fmt k ∧ byteOffset start.toInt fmt k +
            overlap start.toInt stop.toInt k (k + f.nbSamples) * fmt.bytesPerSample ≤
              f.nbSamples * fmt.bytesPerSample) := by
      intro p hp
      have hto := hptr p hp
      rw [if_neg hnear] at hto
      rw [Fed.readsInFrame_iff hunit (hcount ▸ hover) hto (bytesPerSample_dvd_bmod _ _), hcount,
        cutFrame32_frame]
    constructor
    · intro h _ _
      exact (hreads 0 hplane).1 (h 0 hplane)
    · intro h p hp
      exact (hreads p hp).2 (h hover (not_le.1 hnear))

end near

include hs hC hpos hsize in
/-- A window that does not end too far before the frame. -/
theorem cutFrame32_near (hnext : k + f.nbSamples < 2 ^ 31)
    (hnear : -2 ^ 31 ≤ stop.toInt - max start.toInt k) :
    (cutFrame32 start stop fmt nb_channels s f).2.PerChannel start.toInt stop.toInt fmt C k ↔
      (0 < overlap start.toInt stop.toInt k (k + f.nbSamples) →
        fmt.isPlanar = true ∨ C = 1) ∧ CutsInFrame start.toInt stop.toInt fmt k f := by
  have hlength := toInt_frameLength start stop hs hnext
  rw [if_pos hnear] at hlength
  by_cases hover : 0 < overlap start.toInt stop.toInt k (k + f.nbSamples)
  · have hsame : (frameLength start stop s f).toInt =
        overlap start.toInt stop.toInt k (k + f.nbSamples) := by
      simp only [overlap] at hover ⊢
      omega
    have hreads := cutFrame32_reads_iff hs hC hpos hsize hover hsame
    have hcount : (cutFrame32 start stop fmt nb_channels s f).2.inCount =
        overlap start.toInt stop.toInt k (k + f.nbSamples) * fmt.unit C :=
      cutFrame32_count_of_overlap hC hpos hsize hover hsame
    constructor
    · intro h
      have hone : (fmt.unit C : ℤ) = 1 := by
        refine mul_left_cancel₀ hover.ne' ?_
        rw [← hcount, mul_one, h.count, cutFrame32_frame]
      have hunit : fmt.unit C = 1 := by exact_mod_cast hone
      refine ⟨fun _ => ?_, (hreads hunit).1 h.reads⟩
      cases hp : fmt.isPlanar
      · exact Or.inr (SampleFormat.unit_packed hp C ▸ hunit)
      · exact Or.inl rfl
    · rintro ⟨hformat, hcuts⟩
      have hunit : fmt.unit C = 1 := by
        rcases hformat hover with hp | rfl
        · exact SampleFormat.unit_planar hp C
        · exact SampleFormat.unit_mono fmt
      refine ⟨?_, (hreads hunit).2 hcuts⟩
      rw [hcount, hunit, Nat.cast_one, mul_one, cutFrame32_frame]
  · have hzero := overlap_eq_zero hover
    rw [Fed.perChannel_iff_of_zero cutFrame32_frame hzero, cutFrame32_count_of_le]
    · exact iff_of_true rfl ⟨fun h => absurd h hover, fun h => absurd h hover⟩
    · simp only [overlap] at hzero
      omega

include hs hC hpos hsize in
/-- The frame in which the total leaves the range is cut too long. -/
theorem not_cutFrame32_perChannel (hlast : k < 2 ^ 31) (hnext : 2 ^ 31 ≤ k + f.nbSamples) :
    ¬ (cutFrame32 start stop fmt nb_channels s f).2.PerChannel start.toInt stop.toInt fmt C k := by
  intro h
  obtain ⟨hscalars, -, hframe⟩ := nbSamples_lt hpos hsize
  have hend : (s.nframes + Int32.ofNat f.nbSamples).toInt = k + f.nbSamples - 2 ^ 32 := by
    rw [Int32.toInt_add, hs.nframes, Int32.toInt_ofNat_of_lt hframe, Int.bmod_def]
    split_ifs <;> omega
  have hstart := start.toInt_lt
  have hstop := stop.le_toInt
  have hstop' := stop.toInt_lt
  have hlength : (frameLength start stop s f).toInt =
      min (stop.toInt + 2 ^ 32) (k + f.nbSamples : ℤ) - max start.toInt k := by
    rw [frameLength, cutLength, Int32.toInt_sub, toInt_min, toInt_max, hs.lastNframes, hend,
      bmod_eq_ite (by omega) (by omega), if_neg (by omega)]
    omega
  have hunit : 1 ≤ (fmt.unit C : ℤ) := by
    unfold SampleFormat.unit
    split_ifs <;> omega
  have hlong : (frameLength start stop s f).toInt * 1 ≤
      (frameLength start stop s f).toInt * fmt.unit C :=
    mul_le_mul_of_nonneg_left hunit (by omega)
  have hshort : (frameLength start stop s f).toInt * fmt.unit C ≤
      (f.nbSamples : ℤ) * fmt.unit C :=
    mul_le_mul_of_nonneg_right (by omega) (by omega)
  have hsmall : (f.nbSamples * fmt.unit C : ℤ) < 2 ^ 31 := mod_cast hscalars
  have hcount := h.count
  rw [cutFrame32_count hC (by omega), Int.bmod_eq_of_le (by omega) (by omega), cutFrame32_frame,
    overlap] at hcount
  omega

include hs hC hpos hsize in
/-- **One push is per channel** exactly when the total stays in its range, the units agree, and
a length or an offset that wraps does no harm. -/
theorem cutFrame32_perChannel_iff (hlast : k < 2 ^ 31) :
    (cutFrame32 start stop fmt nb_channels s f).2.PerChannel start.toInt stop.toInt fmt C k ↔
      k + f.nbSamples < 2 ^ 31 ∧
        (0 < overlap start.toInt stop.toInt k (k + f.nbSamples) → fmt.isPlanar = true ∨ C = 1) ∧
          NoneRead start.toInt stop.toInt fmt C k ∧
            CutsInFrame start.toInt stop.toInt fmt k f := by
  by_cases hnext : k + f.nbSamples < 2 ^ 31
  · rw [and_iff_right hnext]
    by_cases hfar : stop.toInt - max start.toInt k < -2 ^ 31
    · have hnone : ¬ 0 < overlap start.toInt stop.toInt k (k + f.nbSamples) := by
        have hstop := stop.toInt_lt
        rw [overlap]
        omega
      rw [cutFrame32_far hs hC hnext hfar, NoneRead, forall_prop_of_true hfar]
      exact ⟨fun h => ⟨fun ho => absurd ho hnone, h, fun ho => absurd ho hnone⟩, fun h => h.2.1⟩
    · rw [cutFrame32_near hs hC hpos hsize hnext (not_lt.1 hfar)]
      exact and_congr_right fun _ => (and_iff_right fun h => absurd h hfar).symm
  · exact iff_of_false (not_cutFrame32_perChannel hs hC hpos hsize hlast (not_lt.1 hnext))
      fun h => hnext h.1

end frame

/-! ## The run -/

/-- The window misses the stream when it misses every frame. -/
theorem overlap_stream_eq_zero_iff (start stop : ℤ) (k : ℕ) (frames : List (AVFrame α)) :
    overlap start stop k (k + totalSamples frames) = 0 ↔
      ∀ fs f gs, frames = fs ++ f :: gs →
        overlap start stop (k + totalSamples fs : ℕ)
          ((k + totalSamples fs : ℕ) + f.nbSamples) = 0 := by
  induction frames generalizing k with
  | nil =>
    refine iff_of_true ?_ fun fs f gs h => by simp at h
    simp only [totalSamples_nil, overlap]
    omega
  | cons f fs ih =>
    have hadd : overlap start stop k (k + f.nbSamples : ℕ) +
        overlap start stop (k + f.nbSamples : ℕ) ((k + f.nbSamples : ℕ) + totalSamples fs) =
          overlap start stop k (k + totalSamples (f :: fs)) := by
      rw [totalSamples_cons, Nat.cast_add, Nat.cast_add, ← Int.add_assoc]
      exact overlap_add start stop (by omega) (by omega)
    rw [← hadd, add_eq_zero_iff_of_nonneg (overlap_nonneg _ _ _ _) (overlap_nonneg _ _ _ _), ih,
      forall_eq_append_cons_iff]
    simp only [totalSamples_nil, totalSamples_cons, Nat.add_zero, Nat.add_assoc, Nat.cast_add]

/-- A run of the frame loop from position `k` on. -/
theorem cutFrames32_perChannel_iff (start stop : Int32) {fmt : SampleFormat}
    {nb_channels : Int32} {C k : ℕ} {s : CutState32} (hs : s.At k)
    (hC : nb_channels.toInt = C) (hpos : 0 < C) (hk : k < 2 ^ 31) (frames : List (AVFrame α))
    (hsize : ∀ f ∈ frames, f.nbSamples * C * fmt.bytesPerSample < 2 ^ 31) :
    ((cutFrames32 start stop fmt nb_channels s frames).map (·.inCount) =
        frameOverlaps start.toInt stop.toInt k frames ∧
      ∀ fed ∈ cutFrames32 start stop fmt nb_channels s frames, ∀ p < fmt.nbPlanes C,
        fed.ReadsInFrame fmt C p) ↔
      k + totalSamples frames < 2 ^ 31 ∧ ∀ fs f gs, frames = fs ++ f :: gs →
        (0 < overlap start.toInt stop.toInt (k + totalSamples fs : ℕ)
            ((k + totalSamples fs : ℕ) + f.nbSamples) → fmt.isPlanar = true ∨ C = 1) ∧
          NoneRead start.toInt stop.toInt fmt C (k + totalSamples fs) ∧
            CutsInFrame start.toInt stop.toInt fmt (k + totalSamples fs) f := by
  induction frames generalizing k s with
  | nil => simpa [cutFrames32, frameOverlaps] using hk
  | cons f fs ih =>
    have hsplit : ((cutFrames32 start stop fmt nb_channels s (f :: fs)).map (·.inCount) =
          frameOverlaps start.toInt stop.toInt k (f :: fs) ∧
        ∀ fed ∈ cutFrames32 start stop fmt nb_channels s (f :: fs), ∀ p < fmt.nbPlanes C,
          fed.ReadsInFrame fmt C p) ↔
        (cutFrame32 start stop fmt nb_channels s f).2.PerChannel start.toInt stop.toInt
            fmt C k ∧
          (cutFrames32 start stop fmt nb_channels
              (cutFrame32 start stop fmt nb_channels s f).1 fs).map (·.inCount) =
            frameOverlaps start.toInt stop.toInt (k + f.nbSamples) fs ∧
          ∀ fed ∈ cutFrames32 start stop fmt nb_channels
              (cutFrame32 start stop fmt nb_channels s f).1 fs,
            ∀ p < fmt.nbPlanes C, fed.ReadsInFrame fmt C p := by
      rw [cutFrames32, List.map_cons, frameOverlaps, List.cons.injEq, List.forall_mem_cons]
      constructor
      · rintro ⟨⟨hcount, hcounts⟩, hreads, hrest⟩
        exact ⟨⟨hcount, hreads⟩, hcounts, hrest⟩
      · rintro ⟨⟨hcount, hreads⟩, hcounts, hrest⟩
        exact ⟨⟨hcount, hcounts⟩, hreads, hrest⟩
    rw [hsplit, cutFrame32_perChannel_iff hs hC hpos (hsize f List.mem_cons_self) hk,
      forall_eq_append_cons_iff]
    by_cases hnext : k + f.nbSamples < 2 ^ 31
    · rw [ih (cutFrame32_at hs hnext) hnext fun g hg => hsize g (List.mem_cons_of_mem _ hg)]
      simp only [totalSamples_nil, totalSamples_cons, Nat.add_zero, ← Nat.add_assoc,
        and_iff_right hnext]
      exact and_left_comm
    · refine iff_of_false (fun h => hnext h.1.1) fun h => hnext ?_
      rw [totalSamples_cons] at h
      omega

/-- The total is that of the counts. -/
theorem perChannel_iff {start stop : Int32} {fmt : SampleFormat} {nb_channels : Int32}
    {handle : ℕ → ℤ} {frames : List (AVFrame α)} :
    PerChannel start stop fmt nb_channels handle frames ↔
      (cutFrames32 start stop fmt nb_channels (.init handle) frames).map (·.inCount) =
          frameOverlaps start.toInt stop.toInt 0 frames ∧
        ∀ fed ∈ cutFrames32 start stop fmt nb_channels (.init handle) frames,
          ∀ p < fmt.nbPlanes nb_channels.toInt.toNat,
            fed.ReadsInFrame fmt nb_channels.toInt.toNat p := by
  constructor
  · intro h
    exact ⟨h.counts, h.reads⟩
  · rintro ⟨hcounts, hreads⟩
    refine ⟨hcounts, hreads, ?_⟩
    rw [hcounts, sum_frameOverlaps, Nat.cast_zero, zero_add]

/-- **`in_count` is per channel** exactly when the stream has fewer than `2 ^ 31` samples, the
format is planar or mono, or the window misses the stream, and no frame is cut by a length or an
offset that has wrapped and does harm. -/
theorem cutFrames_perChannel_iff (start_nframes end_nframes : Int32) (fmt : SampleFormat)
    (nb_channels : Int32) (handle : ℕ → ℤ) (frames : List (AVFrame α))
    (hpos : 0 < nb_channels.toInt)
    (hsize : ∀ f ∈ frames,
      f.nbSamples * nb_channels.toInt.toNat * fmt.bytesPerSample < 2 ^ 31) :
    PerChannel start_nframes end_nframes fmt nb_channels handle frames ↔
      totalSamples frames < 2 ^ 31 ∧
        (fmt.isPlanar = true ∨ nb_channels = 1 ∨
          overlap start_nframes.toInt end_nframes.toInt 0 (totalSamples frames) = 0) ∧
        ∀ fs f gs, frames = fs ++ f :: gs →
          NoneRead start_nframes.toInt end_nframes.toInt fmt nb_channels.toInt.toNat
              (totalSamples fs) ∧
            CutsInFrame start_nframes.toInt end_nframes.toInt fmt (totalSamples fs) f := by
  have hC : nb_channels.toInt = nb_channels.toInt.toNat := (Int.toNat_of_nonneg hpos.le).symm
  have hrun := cutFrames32_perChannel_iff start_nframes end_nframes
    (CutState32.at_init handle) hC (by omega) (by norm_num) frames hsize
  have hmiss := overlap_stream_eq_zero_iff start_nframes.toInt end_nframes.toInt 0 frames
  simp only [Nat.cast_zero, zero_add] at hrun hmiss
  have hmono : nb_channels.toInt.toNat = 1 ↔ nb_channels = 1 := by
    rw [← Int32.toInt_inj, show (1 : Int32).toInt = 1 from rfl]
    omega
  rw [hmono] at hrun
  rw [perChannel_iff, hrun]
  refine and_congr_right fun _ => ?_
  constructor
  · intro h
    refine ⟨?_, fun fs f gs hf => (h fs f gs hf).2⟩
    by_contra hne
    push Not at hne
    refine hne.2.2 (hmiss.2 fun fs f gs hf => overlap_eq_zero fun hover => ?_)
    rcases (h fs f gs hf).1 hover with hp | hone
    · exact hne.1 hp
    · exact hne.2.1 hone
  · rintro ⟨hformat, h⟩ fs f gs hf
    refine ⟨fun hover => ?_, h fs f gs hf⟩
    rcases hformat with hp | hone | hzero
    · exact Or.inl hp
    · exact Or.inr hone
    · exact absurd (hmiss.1 hzero fs f gs hf) hover.ne'

/-- Planar stereo: for the window `[1, 3)` of four sample frames, `in_count` is two. -/
theorem cutFrames_perChannel_iff_planar :
    PerChannel 1 3 .s16p 2 (fun _ => 0) [fourSamples] := by
  refine (cutFrames_perChannel_iff 1 3 .s16p 2 (fun _ => 0) [fourSamples] (by decide)
    (by decide)).2 ⟨by decide, Or.inl rfl, ?_⟩
  refine (forall_eq_singleton_iff _ _).2 ⟨?_, ?_⟩
  · exact fun hfar => absurd hfar (by decide)
  · exact fun _ hwrap => absurd hwrap (by decide)

/-- Packed stereo: for the window `[0, 4)` of four sample frames, `in_count` is eight. -/
theorem not_perChannel_stereo :
    (cutFrames32 0 4 .s16 2 (.init fun _ => 0) [fourSamples]).map (·.inCount) = [8] ∧
      ¬ PerChannel 0 4 .s16 2 (fun _ => 0) [fourSamples] := by
  refine ⟨by decide, ?_⟩
  intro h
  exact absurd h.counts (by decide)

end AudioCrash.Audio
