import AudioCrash.Lib.Segment
import Mathlib.Algebra.BigOperators.Group.List.Basic
import Mathlib.Tactic.Ring

/-!
# Sample formats and audio frames

A decoded frame is its number of sample frames, the plane pointers `data`, and the memory
the pointers lead into. A pointer is an address, and `mem p` is the scalar stored from the
address `p` on, so that reading past the end of a plane yields whatever is there.

Planar formats keep each channel in a plane of its own; packed formats interleave the
channels in one plane.

## Main definitions

* `SampleFormat`, `SampleFormat.isPlanar`, `SampleFormat.bytesPerSample`
* `SampleFormat.scalars`, `SampleFormat.nbPlanes` — how `n` sample frames are laid out.
* `AVFrame`, `AVFrame.read` — scalars read from a pointer on.
* `AVFrame.samples` — sample frames read through an array of plane pointers.
* `scalarsBefore`, `planeStream` — a plane of the whole stream.
-/

namespace AudioCrash.Audio

open Segment

/-- `AVSampleFormat`. -/
inductive SampleFormat where
  | u8 | s16 | s32 | flt | dbl | u8p | s16p | s32p | fltp | dblp | s64 | s64p
  deriving DecidableEq, Repr

namespace SampleFormat

/-- `av_sample_fmt_is_planar`. -/
def isPlanar : SampleFormat → Bool
  | u8 | s16 | s32 | flt | dbl | s64 => false
  | u8p | s16p | s32p | fltp | dblp | s64p => true

/-- `av_get_bytes_per_sample`. -/
def bytesPerSample : SampleFormat → ℕ
  | u8 | u8p => 1
  | s16 | s16p => 2
  | s32 | s32p | flt | fltp => 4
  | dbl | dblp | s64 | s64p => 8

/-- The scalars of one plane that hold one sample frame. -/
def unit (fmt : SampleFormat) (nb_channels : ℕ) : ℕ := if fmt.isPlanar then 1 else nb_channels

/-- The planes of a frame. -/
def nbPlanes (fmt : SampleFormat) (nb_channels : ℕ) : ℕ :=
  if fmt.isPlanar then nb_channels else 1

@[simp] theorem unit_planar {fmt : SampleFormat} (h : fmt.isPlanar = true) (C : ℕ) :
    fmt.unit C = 1 := by simp [unit, h]
@[simp] theorem unit_packed {fmt : SampleFormat} (h : fmt.isPlanar = false) (C : ℕ) :
    fmt.unit C = C := by simp [unit, h]
@[simp] theorem nbPlanes_planar {fmt : SampleFormat} (h : fmt.isPlanar = true) (C : ℕ) :
    fmt.nbPlanes C = C := by simp [nbPlanes, h]
@[simp] theorem unit_mono (fmt : SampleFormat) : fmt.unit 1 = 1 := by simp [unit]

end SampleFormat

/-- `AVFrame`, with the memory its pointers lead into. -/
structure AVFrame (α : Type) where
  nbSamples : ℕ
  data : ℕ → ℤ
  mem : ℤ → α

namespace AVFrame
variable {α : Type}

/-- The `n` scalars of `width` bytes from the address `p` on. -/
def read (f : AVFrame α) (width n : ℕ) (p : ℤ) : List α :=
  (List.range n).map fun i : ℕ => f.mem (p + i * width)

@[simp] theorem length_read (f : AVFrame α) (width n : ℕ) (p : ℤ) :
    (f.read width n p).length = n := by simp [read]
@[simp] theorem read_zero (f : AVFrame α) (width : ℕ) (p : ℤ) : f.read width 0 p = [] := rfl

/-- Reading further in the memory. -/
theorem read_add (f : AVFrame α) (width : ℕ) {off n len : ℕ} (h : off + len ≤ n) (p : ℤ) :
    f.read width len (p + off * width) = ((f.read width n p).drop off).take len := by
  apply List.ext_getElem
  · rw [List.length_take, List.length_drop, length_read, length_read]
    omega
  · intro i hi hi'
    simp only [read, List.getElem_take, List.getElem_drop, List.getElem_map,
      List.getElem_range]
    congr 1
    push_cast
    ring

/-- The scalars of one plane of a frame. -/
def planeLen (f : AVFrame α) (fmt : SampleFormat) (nb_channels : ℕ) : ℕ :=
  f.nbSamples * fmt.unit nb_channels

/-- The content of one plane of a frame. -/
def plane (f : AVFrame α) (fmt : SampleFormat) (nb_channels p : ℕ) : List α :=
  f.read fmt.bytesPerSample (f.planeLen fmt nb_channels) (f.data p)

@[simp] theorem length_plane (f : AVFrame α) (fmt : SampleFormat) (C p : ℕ) :
    (f.plane fmt C p).length = f.nbSamples * fmt.unit C := by simp [plane, planeLen]

/-- The `n` sample frames that are read through the plane pointers `ptrs`: the value of
channel `c` comes from a plane of its own, or interleaved from the only plane. -/
def samples (f : AVFrame α) (fmt : SampleFormat) (nb_channels n : ℕ) (ptrs : ℕ → ℤ) :
    List (ℕ → α) :=
  (List.range n).map fun (i : ℕ) c =>
    if fmt.isPlanar then f.mem (ptrs c + i * fmt.bytesPerSample)
    else f.mem (ptrs 0 + (i * nb_channels + c) * fmt.bytesPerSample)

@[simp] theorem length_samples (f : AVFrame α) (fmt : SampleFormat) (C n : ℕ) (ptrs : ℕ → ℤ) :
    (f.samples fmt C n ptrs).length = n := by simp [samples]

end AVFrame

/-- The sample frames of a list of decoded frames. -/
def totalSamples {α : Type} (frames : List (AVFrame α)) : ℕ := (frames.map (·.nbSamples)).sum

/-- One plane of the whole stream. -/
def planeStream {α : Type} (fmt : SampleFormat) (nb_channels p : ℕ) (frames : List (AVFrame α)) :
    List α :=
  (frames.map fun f => f.plane fmt nb_channels p).flatten

@[simp] theorem totalSamples_nil {α : Type} : totalSamples ([] : List (AVFrame α)) = 0 := rfl
@[simp] theorem totalSamples_cons {α : Type} (f : AVFrame α) (fs : List (AVFrame α)) :
    totalSamples (f :: fs) = f.nbSamples + totalSamples fs := by simp [totalSamples]
@[simp] theorem totalSamples_append {α : Type} (fs gs : List (AVFrame α)) :
    totalSamples (fs ++ gs) = totalSamples fs + totalSamples gs := by simp [totalSamples]

@[simp] theorem length_planeStream {α : Type} (fmt : SampleFormat) (C p : ℕ)
    (frames : List (AVFrame α)) :
    (planeStream fmt C p frames).length = totalSamples frames * fmt.unit C := by
  induction frames with
  | nil => simp [planeStream]
  | cons f fs ih =>
    have hcons : planeStream fmt C p (f :: fs) = f.plane fmt C p ++ planeStream fmt C p fs := by
      simp [planeStream]
    rw [hcons, List.length_append, ih, AVFrame.length_plane, totalSamples_cons, Nat.add_mul]

end AudioCrash.Audio
