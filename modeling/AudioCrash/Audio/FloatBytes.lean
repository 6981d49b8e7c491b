import AudioCrash.Audio.Histogram
import Mathlib.Data.Int.ModEq

/-!
# The bytes of a decoded frame taken for floats

`filter_frame_f` is called with the frame of the decoder, in the sample format of the
decoder, and reads four bytes at a time as a float. Here a frame is bytes, which are turned
into values once as the function reads them and once as the format says.

The machine is little-endian. The value of an infinity or a NaN is a parameter, and so is the
conversion to `int` where it is undefined.

## Main definitions

* `littleEndian`, `ieee`, `SampleFormat.amplitude` — the value of a stored sample.
* `ByteFrame` — a frame of bytes, and its views.
* `bytesRead`, `bytesStored` — offsets in the planes.
* `ReadsSamples`, `readsAll_iff` — for which formats the samples are read.
-/

namespace AudioCrash.Audio

/-! ## Stored samples -/

/-- The number in `width` bytes from the address `a` on. -/
def littleEndian (bytes : ℤ → UInt8) : ℕ → ℤ → ℕ
  | 0, _ => 0
  | width + 1, a => (bytes a).toNat + 256 * littleEndian bytes width (a + 1)

/-- The value of a floating-point number with `e` bits of exponent and `f` bits of fraction. -/
def ieee (special : ℚ) (e f bits : ℕ) : ℚ :=
  let fraction := bits % 2 ^ f
  let exponent := bits / 2 ^ f % 2 ^ e
  let sign : ℚ := if bits / 2 ^ (e + f) % 2 = 0 then 1 else -1
  if exponent = 2 ^ e - 1 then special
  else if exponent = 0 then sign * fraction * 2 ^ (2 - 2 ^ (e - 1) - f : ℤ)
  else sign * (2 ^ f + fraction) * 2 ^ (exponent + 1 - 2 ^ (e - 1) - f : ℤ)

/-- The normalised amplitude of a sample stored as these bits. -/
def SampleFormat.amplitude (special : ℚ) : SampleFormat → ℕ → ℚ
  | u8, bits | u8p, bits => ((bits : ℚ) - 2 ^ 7) / 2 ^ 7
  | s16, bits | s16p, bits => (bits : ℤ).bmod (2 ^ 16) / 2 ^ 15
  | s32, bits | s32p, bits => (bits : ℤ).bmod (2 ^ 32) / 2 ^ 31
  | s64, bits | s64p, bits => (bits : ℤ).bmod (2 ^ 64) / 2 ^ 63
  | flt, bits | fltp, bits => ieee special 8 23 bits
  | dbl, bits | dblp, bits => ieee special 11 52 bits

/-- `AVFrame`, with the bytes its pointers lead into. -/
structure ByteFrame where
  nbSamples : ℕ
  data : ℕ → ℤ
  bytes : ℤ → UInt8

namespace ByteFrame

/-- The frame with `width` bytes from an address on taken for a value. -/
def view (f : ByteFrame) (width : ℕ) (value : ℕ → ℚ) : AVFrame ℚ where
  nbSamples := f.nbSamples
  data := f.data
  mem a := value (littleEndian f.bytes width a)

/-- What `filter_frame_f` takes the frame for. -/
def floats (f : ByteFrame) (special : ℚ) : AVFrame ℚ := f.view 4 (ieee special 8 23)

/-- What the frame is in its own format. -/
def stored (f : ByteFrame) (special : ℚ) (fmt : SampleFormat) : AVFrame ℚ :=
  f.view fmt.bytesPerSample (fmt.amplitude special)

end ByteFrame

/-! ## The bytes of the planes -/

/-- The bytes of `pcm[i]`, for the planes and the indices of the loops of `filter_frame_f`: the
plane, and the offset in it. -/
def bytesRead (fmt : SampleFormat) (nb_channels nb_samples : ℕ) : Set (ℕ × ℕ) :=
  {q | q.1 < (planesOf fmt nb_samples nb_channels).1 ∧
    ∃ i < (planesOf fmt nb_samples nb_channels).2, 4 * i ≤ q.2 ∧ q.2 < 4 * (i + 1)}

/-- The bytes that hold samples. -/
def bytesStored (fmt : SampleFormat) (nb_channels nb_samples : ℕ) : Set (ℕ × ℕ) :=
  {q | q.1 < fmt.nbPlanes nb_channels ∧
    q.2 < nb_samples * fmt.unit nb_channels * fmt.bytesPerSample}

section planes
variable (fmt : SampleFormat) (C n : ℕ)

/-- The loops go over the planes of the format, and the scalars of one. -/
theorem planesOf_eq : planesOf fmt n C = (fmt.nbPlanes C, n * fmt.unit C) := by
  cases h : fmt.isPlanar <;> simp [planesOf, SampleFormat.nbPlanes, SampleFormat.unit, h]

theorem mem_bytesRead {q : ℕ × ℕ} :
    q ∈ bytesRead fmt C n ↔ q.1 < fmt.nbPlanes C ∧ q.2 < n * fmt.unit C * 4 := by
  rw [bytesRead, planesOf_eq]
  constructor
  · rintro ⟨hplane, i, hi, _, hlt⟩
    exact ⟨hplane, by omega⟩
  · rintro ⟨hplane, hlt⟩
    exact ⟨hplane, q.2 / 4, by omega, by omega, by omega⟩

/-- As many bytes are read as are stored exactly for samples of four bytes, and where there is
nothing. -/
theorem bytesRead_eq_iff :
    bytesRead fmt C n = bytesStored fmt C n ↔ fmt.bytesPerSample = 4 ∨ n = 0 ∨ C = 0 := by
  constructor
  · intro h
    by_contra hne
    push Not at hne
    rcases hne with ⟨hbytes, hn, hC⟩
    have hplanes : 0 < fmt.nbPlanes C := by
      simp only [SampleFormat.nbPlanes]
      split_ifs <;> omega
    have hlen : 0 < n * fmt.unit C := by
      refine Nat.mul_pos (by omega) ?_
      simp only [SampleFormat.unit]
      split_ifs <;> omega
    have hoffset : ∀ q, q < n * fmt.unit C * 4 ↔ q < n * fmt.unit C * fmt.bytesPerSample := by
      intro q
      have hmem := Set.ext_iff.1 h (0, q)
      rw [mem_bytesRead] at hmem
      simpa [bytesStored, hplanes] using hmem
    have heq : n * fmt.unit C * 4 = n * fmt.unit C * fmt.bytesPerSample :=
      le_antisymm (not_lt.1 fun hlt => lt_irrefl _ ((hoffset _).1 hlt))
        (not_lt.1 fun hlt => lt_irrefl _ ((hoffset _).2 hlt))
    exact hbytes (Nat.eq_of_mul_eq_mul_left hlen heq).symm
  · intro h
    ext q
    rw [mem_bytesRead]
    rcases h with h | rfl | rfl
    · simp [bytesStored, h]
    · simp [bytesStored]
    · cases hp : fmt.isPlanar <;> simp [bytesStored, SampleFormat.nbPlanes, hp]

end planes

/-! ## When the samples are read -/

/-- The bytes of the samples are read and no other, and the counters incremented are those of
the amplitudes of the samples. -/
structure ReadsSamples (cast : IntCast) (special : ℚ) (fmt : SampleFormat) (nb_channels : ℕ)
    (f : ByteFrame) : Prop where
  bytes : bytesRead fmt nb_channels f.nbSamples = bytesStored fmt nb_channels f.nbSamples
  bins : (scalars fmt nb_channels (f.floats special) : Multiset ℚ).map (bin cast) =
    (sampleValues fmt nb_channels [f.stored special fmt]).map (bin cast)

section readsSamples
variable (cast : IntCast) (special : ℚ) (fmt : SampleFormat) (C n : ℕ)

theorem scalars_eq_nil (f : AVFrame ℚ) (h : f.nbSamples = 0 ∨ C = 0) : scalars fmt C f = [] := by
  rcases h with h | rfl
  · cases hp : fmt.isPlanar <;> simp [scalars, planesOf, h, hp]
  · cases hp : fmt.isPlanar <;> simp [scalars, planesOf, hp]

theorem ReadsSamples.of (f : ByteFrame) (h : fmt.IsFloat ∨ f.nbSamples = 0 ∨ C = 0) :
    ReadsSamples cast special fmt C f := by
  refine ⟨(bytesRead_eq_iff fmt C f.nbSamples).2 (h.imp_left SampleFormat.IsFloat.bytesPerSample),
    ?_⟩
  rcases h with h | h
  · have hview : f.stored special fmt = f.floats special := by
      rcases h with rfl | rfl <;> rfl
    rw [hview, coe_scalars fmt C _ h]
  · have hcard : (sampleValues fmt C [f.stored special fmt]).card = 0 := by
      rw [card_sampleValues]
      rcases h with h | h
      · simp [ByteFrame.stored, ByteFrame.view, h]
      · simp [h]
    rw [Multiset.card_eq_zero.1 hcard, scalars_eq_nil fmt C _ h]
    rfl

/-- The sample of 32 bits at the address 0 has the amplitude 1/2 and is the float 2; all others
are 0. -/
def halfFrame : ByteFrame where
  nbSamples := n
  data p := 4 * n * p
  bytes a := if a = 3 then 0x40 else 0

/-- A sample of 32 bits is between -1 and 1. -/
theorem amplitude_between {fmt : SampleFormat} (h : fmt = .s32 ∨ fmt = .s32p) (bits : ℕ) :
    -1 ≤ fmt.amplitude special bits ∧ fmt.amplitude special bits < 1 := by
  have hlow : -2 ^ 31 ≤ (bits : ℤ).bmod (2 ^ 32) := Int.le_bmod (by decide)
  have hlt : (bits : ℤ).bmod (2 ^ 32) < 2 ^ 31 := Int.bmod_lt (by decide)
  have hlow' : -2 ^ 31 ≤ (((bits : ℤ).bmod (2 ^ 32) : ℤ) : ℚ) := by exact_mod_cast hlow
  have hlt' : (((bits : ℤ).bmod (2 ^ 32) : ℤ) : ℚ) < 2 ^ 31 := by exact_mod_cast hlt
  have hdiv : -1 ≤ (((bits : ℤ).bmod (2 ^ 32) : ℤ) : ℚ) / 2 ^ 31 ∧
      (((bits : ℤ).bmod (2 ^ 32) : ℤ) : ℚ) / 2 ^ 31 < 1 := by
    rw [le_div_iff₀ (by norm_num), div_lt_one (by norm_num)]
    exact ⟨by linarith, hlt'⟩
  rcases h with rfl | rfl <;> exact hdiv

/-- An `int` holds what such a sample is multiplied to. -/
theorem fitsInt_of_between {x : ℚ} (hlow : -1 ≤ x) (hlt : x < 1) : FitsInt (x * 0x8000) := by
  have hhigh := (truncate_lt_iff x).2 hlt
  have hbound : -0x8000 ≤ truncate (x * 0x8000) := by
    simp only [truncate]
    split_ifs with hx
    · have hfloor : 0 ≤ ⌊x * 0x8000⌋ := Int.floor_nonneg.2 hx
      omega
    · rw [Int.le_ceil_iff]
      push_cast
      linarith
  exact ⟨by omega, by omega⟩

theorem halfFrame_float : ((halfFrame n).floats special).mem 0 = 2 := by
  have hbits : littleEndian (halfFrame n).bytes 4 0 = 0x40000000 := by
    have hbyte : (0x40 : UInt8).toNat = 64 := rfl
    norm_num [littleEndian, halfFrame, hbyte]
  simp only [ByteFrame.floats, ByteFrame.view, hbits]
  norm_num [ieee]

/-- The counter incremented for the first sample is that of 2, and of no stored sample. -/
theorem not_bins_half {fmt : SampleFormat} (h : fmt = .s32 ∨ fmt = .s32p) (hC : 1 ≤ C)
    (hn : 1 ≤ n) :
    (scalars fmt C ((halfFrame n).floats special) : Multiset ℚ).map (bin cast) ≠
      (sampleValues fmt C [(halfFrame n).stored special fmt]).map (bin cast) := by
  intro heq
  have hread : (2 : ℚ) ∈ scalars fmt C ((halfFrame n).floats special) := by
    refine List.mem_flatMap.2 ⟨0, List.mem_range.2 ?plane,
      List.mem_map.2 ⟨0, List.mem_range.2 ?index, ?_⟩⟩
    case plane =>
      rw [planesOf_eq]
      simp only [SampleFormat.nbPlanes]
      split_ifs <;> omega
    case index =>
      rw [planesOf_eq]
      refine Nat.mul_pos hn ?_
      simp only [SampleFormat.unit]
      split_ifs <;> omega
    · have haddr : pcm ((halfFrame n).floats special).data 0 0 = 0 := by
        simp [pcm, ByteFrame.floats, ByteFrame.view, halfFrame]
      rw [haddr, halfFrame_float]
  have hmem : bin cast 2 ∈
      (sampleValues fmt C [(halfFrame n).stored special fmt]).map (bin cast) := by
    rw [← heq]
    exact Multiset.mem_map_of_mem (bin cast) hread
  rcases Multiset.mem_map.1 hmem with ⟨y, hy, hbin⟩
  rcases (mem_sampleValues _ _ _).1 hy with ⟨v, hv, c, _, rfl⟩
  have hbetween : -1 ≤ v c ∧ v c < 1 := by
    rw [sampleFrames, List.flatMap_singleton] at hv
    rcases List.mem_map.1 hv with ⟨i, _, rfl⟩
    dsimp only
    split_ifs
    · exact amplitude_between special h _
    · exact amplitude_between special h _
  have hfits := fitsInt_of_between hbetween.1 hbetween.2
  have hone : ¬ bin cast 2 < 0x10000 := by
    rw [bin_lt_iff_of_fits cast (by decide +kernel)]
    norm_num
  exact hone (hbin ▸ (bin_lt_iff_of_fits cast hfits).2 hbetween.2)

/-- `filter_frame_f` reads the samples of a frame of this size, for every content. -/
def ReadsAll : Prop := ∀ f : ByteFrame, f.nbSamples = n → ReadsSamples cast special fmt C f

/-- Formats of other than four bytes are read at the wrong offsets, and integers of four bytes
are misread. -/
theorem not_readsAll (hfmt : ¬ fmt.IsFloat) (hn : n ≠ 0) (hC : C ≠ 0) :
    ¬ ReadsAll cast special fmt C n := by
  intro h
  have hhalf := h (halfFrame n) rfl
  rcases (bytesRead_eq_iff fmt C n).1 hhalf.bytes with hbytes | hzero
  · have hint : fmt = .s32 ∨ fmt = .s32p := by
      cases fmt <;> simp_all [SampleFormat.bytesPerSample, SampleFormat.IsFloat]
    exact not_bins_half cast special C n hint (by omega) (by omega) hhalf.bins
  · omega

/-- **The samples are read exactly for float formats**, and where there are none. -/
theorem readsAll_iff : ReadsAll cast special fmt C n ↔ fmt.IsFloat ∨ n = 0 ∨ C = 0 := by
  constructor
  · intro h
    by_contra hne
    push Not at hne
    exact not_readsAll cast special fmt C n hne.1 hne.2.1 hne.2.2 h
  · rintro h f rfl
    exact ReadsSamples.of cast special fmt C f h

end readsSamples

/-- One mono sample of 16 bits: the fourth byte read is none of the sample. -/
theorem not_readsAll_s16 :
    (0, 3) ∈ bytesRead .s16 1 1 ∧ (0, 3) ∉ bytesStored .s16 1 1 ∧ ¬ ReadsAll .x86 0 .s16 1 1 := by
  refine ⟨(mem_bytesRead .s16 1 1).2 (by decide), ?_, ?_⟩
  · rintro ⟨_, hlt⟩
    exact absurd hlt (by decide)
  · exact not_readsAll .x86 0 .s16 1 1 (by decide) (by decide) (by decide)

end AudioCrash.Audio
