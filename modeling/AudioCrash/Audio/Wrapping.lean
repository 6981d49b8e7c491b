import AudioCrash.Audio.Cut

/-!
# `cut` in 32-bit arithmetic

The positions of `cut` are `int`s, and the window is converted from times of the caller
without a range check. Two subtractions can leave the range: the length, when the window ends
far before the frame, and the offset, when it starts far before it. The length that has wrapped
is positive, and passes the check.

## Main definitions

* `cutLength`, `cutOffset`, `cut32` — the function with wrapping arithmetic.
* `ExactCut`, `exactCut_iff` — when the variables have the exact values.
* `cut32_count`, `cut32_ptr` — what the function returns, and where the pointers lead.
-/

namespace AudioCrash.Audio

/-! ## The function -/

section source
variable (src_start src_end start_nframes end_nframes : Int32)

/-- `nb_samples`, before the format is looked at. -/
def cutLength : Int32 := min end_nframes src_end - max start_nframes src_start

/-- `nb_offset`, before the format is looked at. -/
def cutOffset : Int32 := max (start_nframes - src_start) 0

/-- `cut`. -/
def cut32 (dst src : ℕ → ℤ) (sample_fmt : SampleFormat) (nb_channels : Int32) :
    (ℕ → ℤ) × Int32 :=
  let nb_samples := cutLength src_start src_end start_nframes end_nframes
  if nb_samples ≤ 0 then (dst, 0)
  else
    let nb_offset := cutOffset src_start start_nframes
    let (nb_samples, nb_offset, nb_planes) :=
      if !sample_fmt.isPlanar then (nb_samples * nb_channels, nb_offset * nb_channels, 1)
      else (nb_samples, nb_offset, nb_channels)
    let dst := forLoop 0 nb_planes.toInt.toNat (fun plane dst =>
      Function.update dst plane
        (src plane + (nb_offset * Int32.ofNat sample_fmt.bytesPerSample).toInt)) dst
    (dst, nb_samples)

end source

/-! ## Wrapping -/

/-- A difference of two positions that is too small comes out `2 ^ 32` larger. -/
theorem bmod_eq_ite {d : ℤ} (hlo : -2 ^ 32 < d) (hhi : d < 2 ^ 31) :
    d.bmod (2 ^ 32) = if -2 ^ 31 ≤ d then d else d + 2 ^ 32 := by
  rw [Int.bmod_def]
  split_ifs <;> omega

theorem toInt_min (a b : Int32) : (min a b).toInt = min a.toInt b.toInt := by
  have hmin : min a b = if a ≤ b then a else b := rfl
  rw [hmin]
  by_cases h : a ≤ b
  · rw [if_pos h, min_eq_left (Int32.le_iff_toInt_le.1 h)]
  · rw [if_neg h, min_eq_right]
    rw [Int32.le_iff_toInt_le] at h
    omega

theorem toInt_max (a b : Int32) : (max a b).toInt = max a.toInt b.toInt := by
  have hmax : max a b = if a ≤ b then b else a := rfl
  rw [hmax]
  by_cases h : a ≤ b
  · rw [if_pos h, max_eq_right (Int32.le_iff_toInt_le.1 h)]
  · rw [if_neg h, max_eq_left]
    rw [Int32.le_iff_toInt_le] at h
    omega

section wrapping
variable {src_start src_end : Int32} (start stop : Int32) (h0 : 0 ≤ src_start.toInt)
  (h1 : src_start.toInt ≤ src_end.toInt)

include h0 h1 in
/-- The length wraps when the window ends far before the frame. -/
theorem toInt_cutLength :
    (cutLength src_start src_end start stop).toInt =
      if -2 ^ 31 ≤ stop.toInt - max start.toInt src_start.toInt then
        min stop.toInt src_end.toInt - max start.toInt src_start.toInt
      else stop.toInt - max start.toInt src_start.toInt + 2 ^ 32 := by
  have hstop := stop.le_toInt
  have hend := src_end.toInt_lt
  have hstart := start.toInt_lt
  have hsrc := src_start.toInt_lt
  rw [cutLength, Int32.toInt_sub, toInt_min, toInt_max, bmod_eq_ite (by omega) (by omega)]
  split_ifs <;> omega

include h0 in
/-- The offset wraps when the window starts far before the frame. -/
theorem toInt_cutOffset :
    (cutOffset src_start start).toInt =
      if -2 ^ 31 ≤ start.toInt - src_start.toInt then max (start.toInt - src_start.toInt) 0
      else start.toInt - src_start.toInt + 2 ^ 32 := by
  have hstart := start.le_toInt
  have hstart' := start.toInt_lt
  have hsrc := src_start.toInt_lt
  rw [cutOffset, toInt_max, Int32.toInt_sub, Int32.toInt_zero, bmod_eq_ite (by omega) (by omega)]
  split_ifs <;> omega

end wrapping

/-! ## When the arithmetic is exact -/

/-- The length, cut off at zero, is the overlap, and where it is positive the offset is that of
the overlap in the frame. -/
structure ExactCut (src_start src_end start stop : Int32) : Prop where
  length : max 0 (cutLength src_start src_end start stop).toInt =
    overlap start.toInt stop.toInt src_start.toInt src_end.toInt
  offset : 0 < (cutLength src_start src_end start stop).toInt →
    (cutOffset src_start start).toInt = max (start.toInt - src_start.toInt) 0
  inFrame : 0 < (cutLength src_start src_end start stop).toInt →
    0 ≤ (cutOffset src_start start).toInt ∧
      (cutOffset src_start start).toInt + (cutLength src_start src_end start stop).toInt ≤
        src_end.toInt - src_start.toInt

section exact
variable {src_start src_end start stop : Int32} (h0 : 0 ≤ src_start.toInt)
  (h1 : src_start.toInt ≤ src_end.toInt)

include h0 h1 in
/-- An exact length has not wrapped. -/
theorem ExactCut.far (h : ExactCut src_start src_end start stop) :
    -2 ^ 31 ≤ stop.toInt - max start.toInt src_start.toInt := by
  have hlength := toInt_cutLength start stop h0 h1
  have hlen := h.length
  have hstop := stop.le_toInt
  have hstart := start.toInt_lt
  have hsrc := src_start.toInt_lt
  by_contra hlt
  have hnone : min stop.toInt src_end.toInt - max start.toInt src_start.toInt ≤ 0 := by omega
  rw [if_neg hlt] at hlength
  rw [overlap, max_eq_left hnone, hlength] at hlen
  omega

include h0 h1 in
/-- An exact offset has not wrapped, where it is used. -/
theorem ExactCut.near (h : ExactCut src_start src_end start stop) :
    min stop.toInt src_end.toInt ≤ src_start.toInt ∨
      -2 ^ 31 ≤ start.toInt - src_start.toInt := by
  have hlength := toInt_cutLength start stop h0 h1
  have hoffset := toInt_cutOffset start h0
  rw [if_pos (h.far h0 h1)] at hlength
  by_contra hne
  push Not at hne
  have hpos : 0 < (cutLength src_start src_end start stop).toInt := by omega
  have hexact := h.offset hpos
  have hlo := start.le_toInt
  have hsrc := src_start.toInt_lt
  rw [if_neg (by omega)] at hoffset
  omega

include h0 h1 in
/-- Without wrapping the arithmetic is exact. -/
theorem exactCut_of_near (hfar : -2 ^ 31 ≤ stop.toInt - max start.toInt src_start.toInt)
    (hnear : min stop.toInt src_end.toInt ≤ src_start.toInt ∨
      -2 ^ 31 ≤ start.toInt - src_start.toInt) : ExactCut src_start src_end start stop := by
  have hlength := toInt_cutLength start stop h0 h1
  have hoffset := toInt_cutOffset start h0
  rw [if_pos hfar] at hlength
  have hoff : 0 < (cutLength src_start src_end start stop).toInt →
      (cutOffset src_start start).toInt = max (start.toInt - src_start.toInt) 0 := by
    intro hpos
    rw [hoffset, if_pos]
    omega
  refine ⟨?_, hoff, ?_⟩
  · rw [hlength, overlap]
  · intro hpos
    rw [hoff hpos, hlength]
    omega

end exact

/-- **The arithmetic is exact exactly when the window does not end too far before the frame, nor
starts too far before a frame that it overlaps.** -/
theorem exactCut_iff (src_start src_end start stop : Int32) (h0 : 0 ≤ src_start.toInt)
    (h1 : src_start.toInt ≤ src_end.toInt) :
    ExactCut src_start src_end start stop ↔
      -2 ^ 31 ≤ stop.toInt - max start.toInt src_start.toInt ∧
        (min stop.toInt src_end.toInt ≤ src_start.toInt ∨
          -2 ^ 31 ≤ start.toInt - src_start.toInt) := by
  constructor
  · intro h
    exact ⟨h.far h0 h1, h.near h0 h1⟩
  · rintro ⟨hfar, hnear⟩
    exact exactCut_of_near h0 h1 hfar hnear

/-- A frame at the end of a window that starts before the stream. -/
theorem exactCut_iff_first :
    ExactCut 0 1024 (-48000) 1000 ↔
      -2 ^ 31 ≤ (1000 : Int32).toInt - max (-48000 : Int32).toInt (0 : Int32).toInt ∧
        (min (1000 : Int32).toInt (1024 : Int32).toInt ≤ (0 : Int32).toInt ∨
          -2 ^ 31 ≤ (-48000 : Int32).toInt - (0 : Int32).toInt) :=
  exactCut_iff 0 1024 (-48000) 1000 (by decide) (by decide)

/-- The window ends at `INT_MIN`, and starts behind the start of the stream: its length wraps
to the longest there is. -/
theorem not_exactCut_wrapped :
    ¬ ExactCut 0 1024 1 (-2147483648) ∧ (cutLength 0 1024 1 (-2147483648)).toInt = 2147483647 := by
  refine ⟨?_, by decide⟩
  rintro ⟨hlen, -, -⟩
  exact absurd hlen (by decide)

/-! ## What the function returns -/

section value
variable (dst src : ℕ → ℤ) {src_start src_end start stop : Int32} (fmt : SampleFormat)
  {nb_channels : Int32} {C : ℕ}

/-- Where the length is not positive nothing is written. -/
theorem cut32_of_le (h : (cutLength src_start src_end start stop).toInt ≤ 0) :
    cut32 src_start src_end start stop dst src fmt nb_channels = (dst, 0) := by
  have hle : cutLength src_start src_end start stop ≤ 0 := Int32.le_iff_toInt_le.2 h
  rw [cut32, if_pos hle]

/-- The length, in the unit of the format. -/
theorem cut32_count (hC : nb_channels.toInt = C)
    (h : 0 < (cutLength src_start src_end start stop).toInt) :
    (cut32 src_start src_end start stop dst src fmt nb_channels).2.toInt =
      ((cutLength src_start src_end start stop).toInt * fmt.unit C).bmod (2 ^ 32) := by
  have hpos : ¬ cutLength src_start src_end start stop ≤ 0 := by
    intro hle
    exact absurd (Int32.le_iff_toInt_le.1 hle) (not_le.2 h)
  rw [cut32, if_neg hpos]
  cases hp : fmt.isPlanar
  · simp [Int32.toInt_mul, hC, SampleFormat.unit_packed hp]
  · simp [SampleFormat.unit_planar hp]

/-- The pointers move by the offset, in the unit of the format and in bytes. -/
theorem cut32_ptr (hC : nb_channels.toInt = C)
    (h : 0 < (cutLength src_start src_end start stop).toInt) {p : ℕ}
    (hp : p < fmt.nbPlanes C) :
    (cut32 src_start src_end start stop dst src fmt nb_channels).1 p =
      src p + ((cutOffset src_start start).toInt * fmt.unit C * fmt.bytesPerSample).bmod
        (2 ^ 32) := by
  have hpos : ¬ cutLength src_start src_end start stop ≤ 0 := by
    intro hle
    exact absurd (Int32.le_iff_toInt_le.1 hle) (not_le.2 h)
  have hbytes : (Int32.ofNat fmt.bytesPerSample).toInt = fmt.bytesPerSample := by
    cases fmt <;> rfl
  rw [cut32, if_neg hpos]
  cases hpl : fmt.isPlanar
  · have hp' : p < 1 := by simpa [SampleFormat.nbPlanes, hpl] using hp
    simp [forLoop_update, hp', Int32.toInt_mul, hC, hbytes, SampleFormat.unit_packed hpl]
  · rw [SampleFormat.nbPlanes_planar hpl] at hp
    simp [forLoop_update, hp, Int32.toInt_mul, hC, hbytes, SampleFormat.unit_planar hpl]

end value

end AudioCrash.Audio
