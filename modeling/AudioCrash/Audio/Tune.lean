import AudioCrash.Audio.Frame
import AudioCrash.Lib.Grid
import Mathlib.Data.Rat.Defs
import Mathlib.Algebra.Order.Ring.Rat

/-!
# Scaling the samples of a chunk in place

The two functions called `tune` go over the planes of a buffer of floats and overwrite every
sample by its scaled and clamped value. Floats are rationals here, and the arithmetic is
exact. The loop over the planes is the outer one in `audio_volume.cc` and the inner one in
`audio_gradient.cc`.

## Main definitions

* `AudioVolume.tune`, `AudioGradient.tune`
* `PlanesApart` — different samples of the planes have different addresses.
* `AudioVolume.tune_cell`, `AudioGradient.tune_cell` — what becomes of a sample.
-/

namespace AudioCrash.Audio

open Grid

/-- `(float *)data[plane] + i`. -/
def pcm (data : ℕ → ℤ) (plane i : ℕ) : ℤ := data plane + 4 * i

/-- The samples of `C` planes of `n` floats have addresses of their own. -/
def PlanesApart (data : ℕ → ℤ) (C n : ℕ) : Prop :=
  ∀ p < C, ∀ p' < C, ∀ i < n, ∀ i' < n, pcm data p i = pcm data p' i' → p = p' ∧ i = i'

/-- The planes of the loops: the number of planes, and the scalars in one. -/
def planesOf (format : SampleFormat) (nb_samples nb_channels : ℕ) : ℕ × ℕ :=
  if !format.isPlanar then (1, nb_samples * nb_channels) else (nb_channels, nb_samples)

/-- `std::min(std::max(x, -1.f), 1.f)`. -/
def clamp (x : ℚ) : ℚ := min (max x (-1)) 1

namespace AudioVolume

/-- The new value of a sample. -/
def scaled (scale x : ℚ) : ℚ := clamp (x * scale)

/-- `tune` of `audio_volume.cc`, over the function `pow` of the C library. -/
def tune (pow : ℚ → ℚ → ℚ) (data : ℕ → ℤ) (nb_samples nb_channels : ℕ) (format : SampleFormat)
    (db : ℚ) (mem : ℤ → ℚ) : ℤ → ℚ :=
  let (nb_planes, nb_samples) := planesOf format nb_samples nb_channels
  updateGrid nb_planes nb_samples (fun plane i => pcm data plane i)
    (fun _ _ => scaled (pow 10 (db / 20))) mem

section tune
variable {data : ℕ → ℤ} {C n : ℕ} (pow : ℚ → ℚ → ℚ) (db : ℚ) (mem : ℤ → ℚ)

/-- Every sample is scaled once. -/
theorem tune_cell (h : PlanesApart data C n) {p i : ℕ} (hp : p < C) (hi : i < n) :
    tune pow data n C .fltp db mem (pcm data p i) =
      scaled (pow 10 (db / 20)) (mem (pcm data p i)) :=
  updateGrid_cell C n (pcm data) (fun _ _ => scaled (pow 10 (db / 20))) mem h hp hi

/-- What is not a sample of the planes is unchanged. -/
theorem tune_other {a : ℤ} (h : ∀ p < C, ∀ i < n, a ≠ pcm data p i) :
    tune pow data n C .fltp db mem a = mem a :=
  updateGrid_other C n (pcm data) (fun _ _ => scaled (pow 10 (db / 20))) mem h

end tune
end AudioVolume

namespace AudioGradient

/-- The new value of a sample: the sign is put back after scaling. -/
def scaled (scale x : ℚ) : ℚ := if 0 ≤ x then clamp (x * scale) else -clamp (|x| * scale)

/-- `tune` of `audio_gradient.cc`, where `main` is the script's function. -/
def tune (main : ℚ → ℚ → ℚ) (data : ℕ → ℤ) (nb_samples nb_channels : ℕ) (format : SampleFormat)
    (pos size : ℚ) (mem : ℤ → ℚ) : ℤ → ℚ :=
  let (nb_planes, nb_samples) := planesOf format nb_samples nb_channels
  let scale := main pos size
  updateGrid nb_samples nb_planes (fun i plane => pcm data plane i) (fun _ _ => scaled scale) mem

section tune
variable {data : ℕ → ℤ} {C n : ℕ} (main : ℚ → ℚ → ℚ) (pos size : ℚ) (mem : ℤ → ℚ)

/-- Every sample is scaled once. -/
theorem tune_cell (h : PlanesApart data C n) {p i : ℕ} (hp : p < C) (hi : i < n) :
    tune main data n C .fltp pos size mem (pcm data p i) =
      scaled (main pos size) (mem (pcm data p i)) := by
  refine updateGrid_cell n C (fun i plane => pcm data plane i)
    (fun _ _ => scaled (main pos size)) mem ?_ hi hp
  intro i hi i' hi' p hp p' hp' heq
  exact (h p hp p' hp' i hi i' hi' heq).symm

/-- What is not a sample of the planes is unchanged. -/
theorem tune_other {a : ℤ} (h : ∀ p < C, ∀ i < n, a ≠ pcm data p i) :
    tune main data n C .fltp pos size mem a = mem a := by
  refine updateGrid_other n C (fun i plane => pcm data plane i)
    (fun _ _ => scaled (main pos size)) mem ?_
  intro i hi p hp
  exact h p hp i hi

end tune
end AudioGradient

end AudioCrash.Audio
