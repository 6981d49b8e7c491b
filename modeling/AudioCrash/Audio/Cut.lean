import AudioCrash.Audio.Frame
import AudioCrash.Lib.Grid

/-!
# Cutting a window out of the decoded frames

`cut` intersects the frame at the positions `[src_start, src_end)` with the window
`[start_nframes, end_nframes)`. It moves the plane pointers to the first sample frame of
the overlap and returns a length. The frame loop of `AudioCut::run` calls it with the
running totals `last_nframes` and `nframes`, and hands the pointers and the length to the
resampler as `handle` and `in_count`.

The length is counted in the scalars of one plane. Plane by plane the cuts therefore join
to the window of the stream (`cutFrames_window`).

Positions are exact integers here; `Audio.Wrapping` has the `int`s of the source.

## Main definitions

* `cut` — the function.
* `CutState`, `cutFrame`, `cutFrames` — the frame loop; a `Fed` is one push.
* `overlap` — the sample frames of a window in a range of positions.
* `Fed.InFrame` — the slice of a push lies in its own frame.
-/

namespace AudioCrash.Audio

open Segment Grid

variable {α : Type}

/-! ## The function -/

/-- `cut`, which writes `dst` and returns a length. -/
def cut (dst src : ℕ → ℤ) (src_start src_end start_nframes end_nframes : ℤ)
    (sample_fmt : SampleFormat) (nb_channels : ℕ) : (ℕ → ℤ) × ℤ :=
  let nb_samples := min end_nframes src_end - max start_nframes src_start
  if nb_samples ≤ 0 then (dst, 0)
  else
    let nb_offset := max (start_nframes - src_start) 0
    let (nb_samples, nb_offset, nb_planes) :=
      if !sample_fmt.isPlanar then (nb_samples * nb_channels, nb_offset * nb_channels, 1)
      else (nb_samples, nb_offset, nb_channels)
    let dst := forLoop 0 nb_planes (fun plane dst =>
      Function.update dst plane (src plane + nb_offset * sample_fmt.bytesPerSample)) dst
    (dst, nb_samples)

/-- The sample frames of `[a, b)` in `[lo, hi)`. -/
def overlap (a b lo hi : ℤ) : ℤ := max 0 (min b hi - max a lo)

theorem overlap_nonneg (a b lo hi : ℤ) : 0 ≤ overlap a b lo hi := le_max_left _ _

theorem overlap_eq_zero {a b lo hi : ℤ} (h : ¬ 0 < overlap a b lo hi) : overlap a b lo hi = 0 :=
  le_antisymm (not_lt.1 h) (overlap_nonneg a b lo hi)

/-- The overlaps with adjacent ranges add up. -/
theorem overlap_add (a b : ℤ) {lo mid hi : ℤ} (h : lo ≤ mid) (h' : mid ≤ hi) :
    overlap a b lo mid + overlap a b mid hi = overlap a b lo hi := by
  simp only [overlap]
  omega

/-- The plane loop sets the pointers below `n`. -/
theorem forLoop_update (g dst : ℕ → ℤ) (n p : ℕ) :
    forLoop 0 n (fun plane dst => Function.update dst plane (g plane)) dst p =
      if p < n then g p else dst p := by
  by_cases hp : p < n
  · rw [if_pos hp]
    exact updateRow_cell n id (fun plane _ => g plane) dst (fun _ _ _ _ h => h) hp
  · rw [if_neg hp]
    refine updateRow_other n id (fun plane _ => g plane) dst ?_
    intro b hb hpb
    exact hp (hpb ▸ hb)

section cut
variable (dst src : ℕ → ℤ) (src_start src_end start stop : ℤ) (fmt : SampleFormat) (C : ℕ)

/-- Outside the window nothing is written. -/
theorem cut_of_le (h : min stop src_end - max start src_start ≤ 0) :
    cut dst src src_start src_end start stop fmt C = (dst, 0) := by
  simp [cut, h]

/-- The length is the overlap in the unit of the format. -/
theorem cut_count :
    (cut dst src src_start src_end start stop fmt C).2 =
      overlap start stop src_start src_end * fmt.unit C := by
  by_cases h : min stop src_end - max start src_start ≤ 0
  · rw [cut_of_le _ _ _ _ _ _ _ _ h, overlap, max_eq_left h, zero_mul]
  · have hmax : overlap start stop src_start src_end = min stop src_end - max start src_start :=
      max_eq_right (by omega)
    cases hp : fmt.isPlanar <;> simp [cut, h, hp, hmax]

/-- The pointers move to the start of the overlap, in the unit of the format. -/
theorem cut_ptr (h : 0 < overlap start stop src_start src_end) {p : ℕ} (hp : p < fmt.nbPlanes C) :
    (cut dst src src_start src_end start stop fmt C).1 p =
      src p + max (start - src_start) 0 * fmt.unit C * fmt.bytesPerSample := by
  have hpos : ¬ min stop src_end - max start src_start ≤ 0 := by
    intro hle
    rw [overlap, max_eq_left hle] at h
    exact lt_irrefl 0 h
  cases hpl : fmt.isPlanar
  · have hp' : p < 1 := by simpa [SampleFormat.nbPlanes, hpl] using hp
    simp only [cut, if_neg hpos, hpl, Bool.not_false, if_true, forLoop_update, if_pos hp',
      SampleFormat.unit_packed hpl]
  · rw [SampleFormat.nbPlanes_planar hpl] at hp
    simp [cut, hpos, hpl, forLoop_update, hp]

end cut

/-! ## The frame loop -/

/-- The variables of the frame loop of `AudioCut::run`. -/
structure CutState where
  nframes : ℤ
  lastNframes : ℤ
  handle : ℕ → ℤ

/-- One push into the resampler. -/
structure Fed (α : Type) where
  frame : AVFrame α
  handle : ℕ → ℤ
  inCount : ℤ

/-- The body of the frame loop. -/
def cutFrame (start_nframes end_nframes : ℤ) (fmt : SampleFormat) (nb_channels : ℕ)
    (s : CutState) (f : AVFrame α) : CutState × Fed α :=
  let nframes := s.nframes + f.nbSamples
  let (handle, nb_samples) :=
    cut s.handle f.data s.lastNframes nframes start_nframes end_nframes fmt nb_channels
  (⟨nframes, nframes, handle⟩, ⟨f, handle, nb_samples⟩)

/-- The pushes of the frame loop. -/
def cutFrames (start_nframes end_nframes : ℤ) (fmt : SampleFormat) (nb_channels : ℕ) :
    CutState → List (AVFrame α) → List (Fed α)
  | _, [] => []
  | s, f :: fs =>
    let (s, fed) := cutFrame start_nframes end_nframes fmt nb_channels s f
    fed :: cutFrames start_nframes end_nframes fmt nb_channels s fs

/-- The state before the first frame: `handle` is not initialised. -/
def CutState.init (handle : ℕ → ℤ) : CutState := ⟨0, 0, handle⟩

theorem CutState.init_eq (handle : ℕ → ℤ) :
    CutState.init handle = ⟨(0 : ℕ), (0 : ℕ), handle⟩ := rfl

/-- The scalars of a plane from `dst[plane]` on, as many as `cut` returns. -/
def Fed.plane (fed : Fed α) (fmt : SampleFormat) (p : ℕ) : List α :=
  fed.frame.read fmt.bytesPerSample fed.inCount.toNat (fed.handle p)

/-- The slice lies in its own frame: it is empty, or it starts at a scalar of the plane and
ends in it. -/
def Fed.InFrame (fed : Fed α) (fmt : SampleFormat) (nb_channels p : ℕ) : Prop :=
  fed.inCount = 0 ∨ ∃ off : ℕ, fed.handle p = fed.frame.data p + off * fmt.bytesPerSample ∧
    off + fed.inCount ≤ fed.frame.planeLen fmt nb_channels

section cutFrame
variable (start stop : ℤ) (fmt : SampleFormat) (C : ℕ) (k : ℕ) (handle : ℕ → ℤ) (f : AVFrame α)

/-- The frame loop at position `k`. -/
theorem cutFrame_state :
    (cutFrame start stop fmt C ⟨k, k, handle⟩ f).1 =
      ⟨(k + f.nbSamples : ℕ), (k + f.nbSamples : ℕ),
        (cutFrame start stop fmt C ⟨k, k, handle⟩ f).2.handle⟩ := by
  simp [cutFrame]

theorem cutFrame_count :
    (cutFrame start stop fmt C ⟨k, k, handle⟩ f).2.inCount =
      overlap start stop k (k + f.nbSamples) * fmt.unit C := by
  simp [cutFrame, cut_count]

/-- The offset of the overlap and its length fit in the frame. -/
theorem offset_add_overlap_le (h : 0 < overlap start stop k (k + f.nbSamples)) :
    (max (start - k) 0).toNat + (overlap start stop k (k + f.nbSamples)).toNat ≤ f.nbSamples := by
  simp only [overlap] at h ⊢
  omega

theorem cutFrame_ptr (h : 0 < overlap start stop k (k + f.nbSamples)) {p : ℕ}
    (hp : p < fmt.nbPlanes C) :
    (cutFrame start stop fmt C ⟨k, k, handle⟩ f).2.handle p =
      f.data p + ((max (start - k) 0).toNat * fmt.unit C : ℕ) * fmt.bytesPerSample := by
  have hoff : ((max (start - k) 0).toNat : ℤ) = max (start - k) 0 := by omega
  rw [Nat.cast_mul, hoff]
  exact cut_ptr _ _ _ _ _ _ _ _ h hp

/-- **The slice of one frame lies in the frame.** -/
theorem cutFrame_inFrame {p : ℕ} (hp : p < fmt.nbPlanes C) :
    (cutFrame start stop fmt C ⟨k, k, handle⟩ f).2.InFrame fmt C p := by
  by_cases h : 0 < overlap start stop k (k + f.nbSamples)
  · refine Or.inr ⟨_, cutFrame_ptr start stop fmt C k handle f h hp, ?_⟩
    have hle := Nat.mul_le_mul_right (fmt.unit C) (offset_add_overlap_le start stop k f h)
    rw [cutFrame_count]
    rw [Nat.add_mul] at hle
    have hcast : (overlap start stop k (k + f.nbSamples) : ℤ) =
        (overlap start stop k (k + f.nbSamples)).toNat := by omega
    rw [hcast]
    exact_mod_cast hle
  · refine Or.inl ?_
    rw [cutFrame_count, overlap_eq_zero h, zero_mul]

/-- **The slice of one frame is the window of the frame**, relative to its position. -/
theorem cutFrame_plane {p : ℕ} (hp : p < fmt.nbPlanes C) :
    (cutFrame start stop fmt C ⟨k, k, handle⟩ f).2.plane fmt p =
      slice ((start - k) * fmt.unit C) ((stop - k) * fmt.unit C) (f.plane fmt C p) := by
  have hlen : (min (stop - k) f.nbSamples - max (start - k) 0).toNat =
      (overlap start stop k (k + f.nbSamples)).toNat := by
    simp only [overlap]
    omega
  have hcount : (overlap start stop k (k + f.nbSamples) * fmt.unit C).toNat =
      (overlap start stop k (k + f.nbSamples)).toNat * fmt.unit C := by
    rw [Int.toNat_mul (overlap_nonneg _ _ _ _) (Int.natCast_nonneg _), Int.toNat_natCast]
  rw [slice_mul _ _ (AVFrame.length_plane f fmt C p), hlen, Fed.plane, cutFrame_count, hcount]
  by_cases h : 0 < overlap start stop k (k + f.nbSamples)
  · have hle := Nat.mul_le_mul_right (fmt.unit C) (offset_add_overlap_le start stop k f h)
    rw [Nat.add_mul] at hle
    rw [cutFrame_ptr start stop fmt C k handle f h hp]
    exact AVFrame.read_add f fmt.bytesPerSample hle (f.data p)
  · simp [overlap_eq_zero h]

end cutFrame

/-- The slices of the frames are the pieces of the window. -/
theorem cutFrames_plane (start stop : ℤ) (fmt : SampleFormat) (C k : ℕ) (handle : ℕ → ℤ)
    (frames : List (AVFrame α)) {p : ℕ} (hp : p < fmt.nbPlanes C) :
    (cutFrames start stop fmt C ⟨k, k, handle⟩ frames).map (·.plane fmt p) =
      slicePieces ((start - k) * fmt.unit C) ((stop - k) * fmt.unit C)
        (frames.map fun f => f.plane fmt C p) := by
  induction frames generalizing k handle with
  | nil => rfl
  | cons f fs ih =>
    have hpos : ∀ x : ℤ, (x - k) * fmt.unit C - (f.nbSamples * fmt.unit C : ℕ) =
        (x - (k + f.nbSamples : ℕ)) * fmt.unit C := by
      intro x
      push_cast
      ring
    rw [cutFrames, List.map_cons, List.map_cons, slicePieces, cutFrame_state, ih,
      cutFrame_plane start stop fmt C k handle f hp, AVFrame.length_plane, hpos, hpos]

/-- Every push is one of a frame at some position. -/
theorem exists_of_mem_cutFrames {start stop : ℤ} {fmt : SampleFormat} {C k : ℕ}
    {handle : ℕ → ℤ} {frames : List (AVFrame α)} {fed : Fed α}
    (h : fed ∈ cutFrames start stop fmt C ⟨k, k, handle⟩ frames) :
    ∃ (k' : ℕ) (handle' : ℕ → ℤ) (f : AVFrame α),
      fed = (cutFrame start stop fmt C ⟨k', k', handle'⟩ f).2 := by
  induction frames generalizing k handle with
  | nil => simp [cutFrames] at h
  | cons f fs ih =>
    rw [cutFrames, List.mem_cons] at h
    rcases h with h | h
    · exact ⟨k, handle, f, h⟩
    · rw [cutFrame_state] at h
      exact ih h

/-- The scalars of plane `p` that a run cuts out. -/
def cutOut (start_nframes end_nframes : ℤ) (fmt : SampleFormat) (nb_channels : ℕ)
    (handle : ℕ → ℤ) (frames : List (AVFrame α)) (p : ℕ) : List α :=
  ((cutFrames start_nframes end_nframes fmt nb_channels (CutState.init handle) frames).map
    (·.plane fmt p)).flatten

/-- What is cut out is a slice of the stream. -/
theorem cutOut_eq_slice (start stop : ℤ) (fmt : SampleFormat) (C : ℕ) (handle : ℕ → ℤ)
    (frames : List (AVFrame α)) {p : ℕ} (hp : p < fmt.nbPlanes C) :
    cutOut start stop fmt C handle frames p =
      slice (start * fmt.unit C) (stop * fmt.unit C) (planeStream fmt C p frames) := by
  rw [cutOut, CutState.init_eq, cutFrames_plane start stop fmt C 0 handle frames hp,
    flatten_slicePieces, planeStream, Nat.cast_zero, sub_zero, sub_zero]

/-- **The frame loop cuts the window out of the stream**: plane by plane, the slices join to
the sample frames from `max start 0` up to `min end total`, every slice lies in its own
frame, and adjacent windows join. -/
theorem cutFrames_window (fmt : SampleFormat) (C : ℕ) (frames : List (AVFrame α)) :
    (∀ (start stop : ℤ) (handle : ℕ → ℤ), ∀ p < fmt.nbPlanes C,
      cutOut start stop fmt C handle frames p =
        ((planeStream fmt C p frames).drop ((max start 0).toNat * fmt.unit C)).take
          ((min stop (totalSamples frames) - max start 0).toNat * fmt.unit C)) ∧
    (∀ (start stop : ℤ) (handle : ℕ → ℤ),
      ∀ fed ∈ cutFrames start stop fmt C (CutState.init handle) frames, ∀ p < fmt.nbPlanes C,
        fed.InFrame fmt C p) ∧
    ∀ (a b c : ℤ) (handle handle' handle'' : ℕ → ℤ), a ≤ b → b ≤ c → ∀ p < fmt.nbPlanes C,
      cutOut a b fmt C handle frames p ++ cutOut b c fmt C handle' frames p =
        cutOut a c fmt C handle'' frames p := by
  refine ⟨?window, ?inside, ?join⟩
  case window =>
    intro start stop handle p hp
    rw [cutOut_eq_slice start stop fmt C handle frames hp,
      slice_mul _ _ (length_planeStream fmt C p frames)]
  case inside =>
    intro start stop handle fed hfed p hp
    rcases exists_of_mem_cutFrames hfed with ⟨k, h, f, rfl⟩
    exact cutFrame_inFrame start stop fmt C k h f hp
  case join =>
    intro a b c handle handle' handle'' hab hbc p hp
    have hu : (0 : ℤ) ≤ fmt.unit C := Int.natCast_nonneg _
    rw [cutOut_eq_slice a b fmt C handle frames hp, cutOut_eq_slice b c fmt C handle' frames hp,
      cutOut_eq_slice a c fmt C handle'' frames hp]
    exact slice_slice_adjacent (Int.mul_le_mul_of_nonneg_right hab hu)
      (Int.mul_le_mul_of_nonneg_right hbc hu) _

/-- A frame of four sample frames. -/
def fourSamples : AVFrame ℤ := ⟨4, fun _ => 0, fun p => p⟩

/-- Packed stereo: `[1, 3)` and `[3, 6)` of two such frames join to `[1, 6)`. -/
theorem cutFrames_window_stereo :
    cutOut 1 3 .s16 2 (fun _ => 0) [fourSamples, fourSamples] 0 ++
        cutOut 3 6 .s16 2 (fun _ => 0) [fourSamples, fourSamples] 0 =
      cutOut 1 6 .s16 2 (fun _ => 0) [fourSamples, fourSamples] 0 :=
  (cutFrames_window .s16 2 [fourSamples, fourSamples]).2.2 1 3 6 _ _ _ (by decide) (by decide) 0
    (by decide)

end AudioCrash.Audio
