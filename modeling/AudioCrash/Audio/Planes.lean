import AudioCrash.Audio.Blocks

/-!
# The planes the encoder reads

A chunk is written to the planes of a buffer for `audio_output_frame_size` samples, and
`avcodec_fill_audio_frame` points the encoder at the planes of a buffer for the samples of
the chunk. The first plane starts at the same byte in both. The others do unless the last
chunk is so short that its length is rounded up to less than a full block is.

## Main definitions

* `Program`, `Program.pipelines` — the four classes, for all their arguments.
* `ReadsChannels` — the encoder reads what was written.
* `Agrees`, `agrees_iff` — for which channels, blocks and streams it always does.
-/

namespace AudioCrash.Audio

open Grid Segment

/-! ## The four classes -/

/-- One of the classes. -/
inductive Program where
  | convert | cut | volume | gradient
  deriving DecidableEq, Repr

/-- What a class runs, for some arguments. -/
def Program.pipelines : Program → Set (Pipeline ℚ)
  | convert => {audioConvert}
  | cut => {p | ∃ start stop, p = audioCut start stop}
  | volume => {p | ∃ pow print_stats volume, p = audioVolume pow print_stats volume}
  | gradient => {p | ∃ main sample_rate, p = audioGradient main sample_rate}

/-- What the encoder reads at `encode_frame->data[p]` is what lies at `buffer[p]`, which is
the channel `p` of the chunk, scaled by the program. -/
def ReadsChannels (x : Context ℚ) (h : List (Sample ℚ) × AVFrame ℚ) : Prop :=
  ∃ args, ∀ p < x.C,
    h.2.read 4 h.2.nbSamples (h.2.data p) = h.2.read 4 h.2.nbSamples (planeAt x.F p) ∧
    h.2.read 4 h.2.nbSamples (planeAt x.F p) = h.1.map fun v => x.pipeline.gain args (v p)

/-- For `C` channels and blocks of `F` samples, the encoder reads what was written, in every
run over a stream of `N` samples. -/
def Agrees (program : Program) (C F N : ℕ) : Prop :=
  ∀ x : Context ℚ, x.pipeline ∈ program.pipelines → x.C = C → x.F = F →
    ∀ (events : List (Event ℚ)) (mem : ℤ → ℚ) (handle : ℕ → ℤ),
      (x.stream handle (allFrames events)).2.length = N →
      ∀ r, run x events (State.init x mem handle) = Flow.ret r →
        ∀ h ∈ handed r.2.log, ReadsChannels x h

/-! ## Where the layouts agree -/

/-- The layouts for `m` and `n` samples agree on a plane. -/
theorem planeAt_eq {m n p : ℕ} (h : p = 0 ∨ align32 m = align32 n) : planeAt m p = planeAt n p := by
  rcases h with rfl | h
  · simp
  · simp only [planeAt, h]

theorem Fits.readsChannels {x : Context ℚ} {h : List (Sample ℚ) × AVFrame ℚ} (hfits : Fits x h)
    (hplane : ∀ p < x.C, planeAt h.1.length p = planeAt x.F p) : ReadsChannels x h := by
  rcases hfits.planes with ⟨args, hplanes⟩
  refine ⟨args, ?_⟩
  intro p hp
  rw [hfits.nbSamples, hfits.data, hplane p hp]
  exact ⟨rfl, hplanes p hp⟩

/-- Mono, an empty stream, and a last chunk that is rounded up to a block. -/
theorem agrees_of {program : Program} {C F N : ℕ}
    (h : C = 1 ∨ N = 0 ∨ align32 ((N - 1) % F + 1) = align32 F) : Agrees program C F N := by
  intro x _ hC hF events mem handle hN r hr c hc
  have hdone := run_done x events mem handle
  rw [hr, Flow.holds_ret] at hdone
  refine (hdone.fits c hc).readsChannels ?_
  intro p hp
  rcases hdone.length c hc with hlen | ⟨hne, hlen⟩
  · rw [hlen]
  · rw [hN, hF] at hlen
    rw [hlen, hF]
    refine planeAt_eq ?_
    rcases h with h | h | h
    · left
      omega
    · rw [h] at hN
      exact absurd (List.length_eq_zero_iff.1 hN) hne
    · exact Or.inr h

/-! ## Where they do not -/

section misread
variable (C F N : ℕ)

/-- One frame: the first channel is 0 everywhere, and the others are 1/2. -/
def stereoFrame : AVFrame ℚ where
  nbSamples := N
  data p := if p = 0 then 4 * N else 0
  mem a := if a < 4 * N then 1 / 2 else 0

theorem stereoFrame_channels {i : ℕ} (hi : i < N) :
    (stereoFrame N).mem ((stereoFrame N).data 0 + i * SampleFormat.fltp.bytesPerSample) = 0 ∧
      (stereoFrame N).mem ((stereoFrame N).data 1 + i * SampleFormat.fltp.bytesPerSample) =
        1 / 2 := by
  simp only [stereoFrame, SampleFormat.bytesPerSample]
  constructor
  · rw [if_neg (by push_cast; omega)]
  · rw [if_pos (by push_cast; omega)]

/-- Arguments for which all of that frame is pushed, and 0 and 1/2 keep their values. -/
def Program.whole : Program → Pipeline ℚ
  | convert => audioConvert
  | cut => audioCut 0 N
  | volume => audioVolume (fun _ _ => 1) (fun _ => 0) 0
  | gradient => audioGradient (fun _ _ => 1) 1

/-- No call fails. -/
def Program.context (program : Program) : Context ℚ where
  pipeline := program.whole N
  ffmpeg :=
    { convertOk := fun _ => true
      fillOk := fun _ => true
      sendFrameOk := fun _ => true
      packets := fun _ => []
      rescaleTs := id
      writeOk := fun _ => true
      trailerOk := fun _ => true }
  fmt := .fltp
  C := C
  streamIndex := 0
  F := F

theorem Program.context_healthy (program : Program) :
    (program.context C F N).ffmpeg.Healthy := by
  constructor <;> intro log <;> rfl

theorem Program.whole_mem (program : Program) : program.whole N ∈ program.pipelines := by
  cases program with
  | convert => rfl
  | cut => exact ⟨0, N, rfl⟩
  | volume => exact ⟨fun _ _ => 1, fun _ => 0, 0, rfl⟩
  | gradient => exact ⟨fun _ _ => 1, 1, rfl⟩

theorem Program.gain_zero (program : Program) (args : TuneArgs ℚ) :
    (program.whole N).gain args 0 = 0 := by
  cases program with
  | convert => rfl
  | cut => rfl
  | volume => norm_num [whole, audioVolume, AudioVolume.scaled, clamp]
  | gradient => norm_num [whole, audioGradient, AudioGradient.scaled, clamp]

theorem Program.gain_half (program : Program) (args : TuneArgs ℚ) :
    (program.whole N).gain args (1 / 2) = 1 / 2 := by
  cases program with
  | convert => rfl
  | cut => rfl
  | volume => norm_num [whole, audioVolume, AudioVolume.scaled, clamp]
  | gradient => norm_num [whole, audioGradient, AudioGradient.scaled, clamp]

/-- All of the frame is pushed, through the pointers of the frame. -/
theorem Program.feed_whole (hN : 1 ≤ N) (program : Program) (handle : ℕ → ℤ) :
    ((program.whole N).feed .fltp C (CutState.init handle) (stereoFrame N)).2.inCount = N ∧
      ∀ p < C, ((program.whole N).feed .fltp C (CutState.init handle) (stereoFrame N)).2.handle p =
        (stereoFrame N).data p := by
  cases program with
  | convert => exact ⟨rfl, fun _ _ => rfl⟩
  | volume => exact ⟨rfl, fun _ _ => rfl⟩
  | gradient => exact ⟨rfl, fun _ _ => rfl⟩
  | cut =>
    have hall : overlap 0 N (0 : ℕ) ((0 : ℕ) + (stereoFrame N).nbSamples) = N := by
      simp only [overlap, stereoFrame]
      omega
    constructor
    · have hcount := cutFrame_count 0 N .fltp C 0 handle (stereoFrame N)
      rw [hall, SampleFormat.unit_planar rfl, Nat.cast_one, mul_one] at hcount
      exact hcount
    · intro p hp
      have hptr := cutFrame_ptr 0 N .fltp C 0 handle (stereoFrame N) (by omega) hp
      have hoff : (max ((0 : ℤ) - (0 : ℕ)) 0).toNat = 0 := rfl
      rw [hoff, zero_mul, Nat.cast_zero, zero_mul, add_zero] at hptr
      exact hptr

/-- Channel 0 of the stream is 0, and channel 1 is 1/2. -/
theorem Program.stream_whole (hN : 1 ≤ N) (hC : 2 ≤ C) (program : Program) (handle : ℕ → ℤ) :
    ((program.context C F N).stream handle [stereoFrame N]).2.length = N ∧
      ∀ v ∈ ((program.context C F N).stream handle [stereoFrame N]).2, v 0 = 0 ∧ v 1 = 1 / 2 := by
  have hfeed := program.feed_whole C N hN handle
  have hstream : ((program.context C F N).stream handle [stereoFrame N]).2 =
      (stereoFrame N).samples .fltp C N
        ((program.whole N).feed .fltp C (CutState.init handle) (stereoFrame N)).2.handle := by
    have hcount : ((program.whole N).feed .fltp C (CutState.init handle)
        (stereoFrame N)).2.inCount.toNat = N := by rw [hfeed.1, Int.toNat_natCast]
    simp [Context.stream, Context.feedStep, Program.context, hcount]
  rw [hstream]
  refine ⟨AVFrame.length_samples _ _ _ _ _, ?_⟩
  intro v hv
  rcases List.mem_map.1 hv with ⟨i, hi, rfl⟩
  have hi : i < N := List.mem_range.1 hi
  have h0 := hfeed.2 0 (by omega)
  have h1 := hfeed.2 1 (by omega)
  have hchannels := stereoFrame_channels N hi
  rw [← h0, ← h1] at hchannels
  exact hchannels

/-- The first plane of the buffer, and what lies in its place before it is written, holds 0
only, while channel 1 of every sample is 1/2. -/
structure Split (x : Context ℚ) (s : State ℚ) : Prop where
  fifo : ∀ v ∈ s.fifo, v 0 = 0 ∧ v 1 = 1 / 2
  low : ∀ a < planeAt x.F 1, s.mem a = 0
  handed : ∀ h ∈ handed s.log,
    (∀ a < planeAt x.F 1, h.2.mem a = 0) ∧ ∀ v ∈ h.1, v 1 = 1 / 2

section split
variable {x : Context ℚ} {s s' : State ℚ}

theorem Split.quiet (h : Split x s) (hq : Quiet s s') : Split x s' := by
  refine ⟨?_, ?_, ?_⟩
  · rw [hq.fifo]
    exact h.fifo
  · rw [hq.mem]
    exact h.low
  · rw [hq.handed]
    exact h.handed

/-- A cell below the second plane is in the first. -/
theorem plane_eq_zero {F p i : ℕ} (h : pcm (planeAt F) p i < planeAt F 1) : p = 0 := by
  by_contra hp
  have hle : planeAt F 1 ≤ planeAt F p :=
    Int.mul_le_mul_of_nonneg_right (by exact_mod_cast Nat.one_le_iff_ne_zero.2 hp) (by omega)
  simp only [pcm] at h
  omega

/-- The chunk is written, and the first plane still holds 0 only. -/
theorem Split.low_pull (h : Split x s) : ∀ a < planeAt x.F 1, (pull x s).2.mem a = 0 := by
  intro a ha
  have hle : (s.fifo.take x.F).length ≤ x.F := List.length_take_le _ _
  by_cases hcell : ∃ p < x.C, ∃ i < (s.fifo.take x.F).length, a = pcm (planeAt x.F) p i
  · rcases hcell with ⟨p, hp, i, hi, rfl⟩
    have hzero := plane_eq_zero ha
    subst hzero
    rw [(pull_loaded x s).cell 0 hp i hi]
    exact (h.fifo _ (List.mem_of_mem_take (List.getElem_mem hi))).1
  · push Not at hcell
    have hother := updateGrid_other x.C (s.fifo.take x.F).length (pcm (planeAt x.F))
      (fun p i old => ((s.fifo.take x.F)[i]?.map fun v => v p).getD old) s.mem hcell
    exact hother.trans (h.low a ha)

theorem Split.sent (hgain : ∀ args, x.pipeline.gain args 0 = 0) (h : Split x s)
    (hs : Sent x (pull x s).1 (pull x s).2 s') : Split x s' := by
  rcases hs.mem with ⟨args, hmem⟩
  have hle : (pull x s).1.length ≤ x.F := (pull_loaded x s).length_le
  have hlow : ∀ a < planeAt x.F 1, s'.mem a = 0 := by
    intro a ha
    have hpull := h.low_pull a ha
    rw [hmem]
    by_cases hcell : ∃ p < x.C, ∃ i < (pull x s).1.length, a = pcm (planeAt x.F) p i
    · rcases hcell with ⟨p, hp, i, hi, rfl⟩
      rw [x.pipeline.tune_cell args _ (planesApart_planeAt x.C hle) hp hi, hpull, hgain]
    · push Not at hcell
      rw [x.pipeline.tune_other args _ hcell, hpull]
  refine ⟨?_, hlow, ?_⟩
  · intro v hv
    rw [hs.fifo, pull_fifo] at hv
    exact h.fifo v (List.mem_of_mem_drop hv)
  · intro c hc
    rcases mem_handed_of_sent hs hc with hc | ⟨hchunk, _, hframe⟩
    · exact h.handed c hc
    · refine ⟨fun a ha => by rw [hframe, hlow a ha], ?_⟩
      intro v hv
      rw [hchunk] at hv
      exact (h.fifo v (List.mem_of_mem_take hv)).2

/-- What a chunk handed over carries besides its own samples. -/
def Stale (x : Context ℚ) (r : ℤ × State ℚ) : Prop :=
  ∀ h ∈ handed r.2.log, (∀ a < planeAt x.F 1, h.2.mem a = 0) ∧ ∀ v ∈ h.1, v 1 = 1 / 2

theorem drain_split (hgain : ∀ args, x.pipeline.gain args 0 = 0) (h : Split x s) :
    Flow.Holds (fun s' => Split x s' ∧ s'.fifo.length ≤ x.F) (Stale x) (drain x s) := by
  refine drain_of_step ?_ h
  intro s _ h
  refine (drainStep_sent x s).imp (fun _ hs => h.sent hgain hs) ?_
  rintro r ⟨_, hs | hs⟩
  · rw [Stale, hs]
    exact h.handed
  · exact (h.sent hgain hs).handed

theorem finish_split (hgain : ∀ args, x.pipeline.gain args 0 = 0) (h : Split x s)
    (hle : s.fifo.length ≤ x.F) : Flow.Holds (fun _ => False) (Stale x) (finish x s) := by
  refine finish_of_tail (D := Split x) (fun _ _ => Split.quiet) (fun _ _ hs => hs.handed)
    ?send ?nil hle
  case send =>
    intro _
    refine (sendChunk_sent x (-22000) (-23000) (pull_loaded x s)).imp
      (fun _ hs => h.sent hgain hs) ?_
    rintro r (⟨_, hs⟩ | ⟨_, hs⟩)
    · rw [Stale, hs, pull_handed]
      exact h.handed
    · exact (h.sent hgain hs).handed
  case nil =>
    intro hnil
    refine ⟨by simp [hnil], h.low_pull, ?_⟩
    rw [pull_handed]
    exact h.handed

/-- A run over one packet with the frame `f`. -/
theorem run_split (hgain : ∀ args, x.pipeline.gain args 0 = 0) (handle : ℕ → ℤ) (f : AVFrame ℚ)
    (hf : ∀ v ∈ (x.stream handle [f]).2, v 0 = 0 ∧ v 1 = 1 / 2) :
    Flow.Holds (fun _ => False) (Stale x)
      (run x [.accepted [f]] (State.init x (fun _ => 0) handle)) := by
  have hpush : Flow.Holds (Split x) (Stale x)
      (Flow.forEach (push x) [f] ((State.init x (fun _ => 0) handle).call .readFrame)) := by
    refine Flow.Holds.bind (P := Split x) ((push_pushed x f _).imp ?_ ?_) fun s hs => hs
    · intro s hs
      refine ⟨?_, fun a _ => by rw [hs.mem]; rfl, by rw [hs.handed]; simp [handed, State.init]⟩
      rw [hs.fifo]
      simpa [State.init, Context.stream] using hf
    · rintro r ⟨_, hs⟩
      rw [Stale, hs]
      simp [handed, State.init]
  have hpacket : Flow.Holds
      (fun s => Split x s ∧ (x.pipeline.interleaved = true → s.fifo.length ≤ x.F)) (Stale x)
      (onPacket x (.accepted [f]) (State.init x (fun _ => 0) handle)) := by
    refine Flow.Holds.bind (P := fun s => Split x s ∧
      (x.pipeline.interleaved = true → s.fifo.length ≤ x.F))
      (Flow.Holds.bind hpush fun s hs => ?drained) fun s hs => ?unref
    case unref => exact ⟨hs.1.quiet (Quiet.call (c := .unref) rfl s), hs.2⟩
    case drained =>
      split_ifs with hi
      · exact (drain_split hgain hs).imp_next fun _ hs => ⟨hs.1, fun _ => hs.2⟩
      · exact ⟨hs, fun hi' => absurd hi' hi⟩
  refine Flow.Holds.bind (Flow.Holds.bind hpacket fun s hs => hs) fun s hs =>
    Flow.Holds.bind (P := fun s => Split x s ∧ s.fifo.length ≤ x.F) ?_
      fun s hs => finish_split hgain hs.1 hs.2
  split_ifs with hi
  · exact ⟨hs.1, hs.2 hi⟩
  · exact drain_split hgain hs.1

/-- A chunk that is rounded up to less than a block is misread: channel 1 is read from the
first plane. -/
theorem not_readsChannels {h : List (Sample ℚ) × AVFrame ℚ} (hC : 2 ≤ x.C)
    (hgain : ∀ args, x.pipeline.gain args (1 / 2) = 1 / 2) (hfits : Fits x h)
    (hne : h.1 ≠ []) (hr : align32 h.1.length < align32 x.F)
    (hlow : ∀ a < planeAt x.F 1, h.2.mem a = 0) (hhalf : ∀ v ∈ h.1, v 1 = 1 / 2) :
    ¬ ReadsChannels x h := by
  rintro ⟨args, hreads⟩
  have hpos : 0 < h.1.length := List.length_pos_of_ne_nil hne
  have hplane : planeAt h.1.length 1 < planeAt x.F 1 := by
    simp only [planeAt]
    omega
  have hread := (hreads 1 (by omega)).1.trans (hreads 1 (by omega)).2
  rw [hfits.nbSamples, hfits.data] at hread
  have hfirst := congrArg (fun l => l[0]?) hread
  simp only [AVFrame.read, List.getElem?_map, List.getElem?_range hpos,
    List.getElem?_eq_getElem hpos, Option.map_some, Option.some.injEq] at hfirst
  rw [hhalf _ (List.getElem_mem hpos), hgain, Nat.cast_zero, zero_mul, add_zero,
    hlow _ hplane] at hfirst
  norm_num at hfirst

end split

/-- The encoder misreads the tail chunk of the run over that frame. -/
theorem exists_misread (hC : 2 ≤ C) (hF : 1 ≤ F) (hN : 1 ≤ N)
    (hr : align32 ((N - 1) % F + 1) ≠ align32 F) (program : Program) :
    ∃ s, run (program.context C F N) [.accepted [stereoFrame N]]
        (State.init (program.context C F N) (fun _ => 0) fun _ => 0) = Flow.ret (0, s) ∧
      ∃ h ∈ handed s.log, ¬ ReadsChannels (program.context C F N) h := by
  rcases program.stream_whole C F N hN hC fun _ => 0 with ⟨hlen, hvalues⟩
  rcases run_eq_ret _ (program.context_healthy C F N) hF [.accepted [stereoFrame N]] (fun _ => 0)
    (fun _ => 0) with ⟨s, hs⟩
  have hdone := run_done (program.context C F N) [.accepted [stereoFrame N]] (fun _ => 0)
    (fun _ => 0)
  have hstale := run_split (x := program.context C F N) (program.gain_zero N) (fun _ => 0)
    (stereoFrame N) hvalues
  rw [hs, Flow.holds_ret] at hdone hstale
  have hblocks : Blocks F ((program.context C F N).stream (fun _ => 0) [stereoFrame N]).2
      (chunks s.log) := (hdone.complete rfl).2.1
  have hne : chunks s.log ≠ [] := by
    intro hnil
    have hflat := hblocks.flatten
    rw [hnil, List.flatten_nil] at hflat
    rw [← hflat, List.length_nil] at hlen
    omega
  have hlast := hblocks.length_getLast _ (List.getLast?_eq_some_getLast hne)
  rw [hlen] at hlast
  rcases List.mem_map.1 (List.getLast_mem hne) with ⟨h, hh, hchunk⟩
  rw [← hchunk] at hlast
  refine ⟨s, hs, h, hh, ?_⟩
  have hle : h.1.length ≤ F := by
    rw [hlast]
    exact Nat.mod_lt _ hF
  refine not_readsChannels hC (program.gain_half N) (hdone.fits h hh) ?_ ?_ (hstale h hh).1
    (hstale h hh).2
  · exact List.ne_nil_of_length_eq_add_one hlast
  · exact lt_of_le_of_ne (align32_mono hle) (by rw [hlast]; exact hr)

theorem not_agrees (hC : 2 ≤ C) (hF : 1 ≤ F) (hN : 1 ≤ N)
    (hr : align32 ((N - 1) % F + 1) ≠ align32 F) (program : Program) :
    ¬ Agrees program C F N := by
  intro hagrees
  rcases exists_misread C F N hC hF hN hr program with ⟨s, hs, h, hh, hmis⟩
  refine hmis (hagrees (program.context C F N) (program.whole_mem N) rfl rfl _ _ _ ?_ _ hs h hh)
  exact (program.stream_whole C F N hN hC fun _ => 0).1

end misread

/-- **The encoder reads what was written exactly for mono, for an empty stream, and for a
stream whose last chunk is rounded up to a full block.** -/
theorem agrees_iff (program : Program) (C F N : ℕ) (hC : 1 ≤ C) (hF : 1 ≤ F) :
    Agrees program C F N ↔ C = 1 ∨ N = 0 ∨ align32 ((N - 1) % F + 1) = align32 F := by
  refine ⟨?_, agrees_of⟩
  intro hagrees
  by_contra hne
  push Not at hne
  rcases hne with ⟨hC1, hN, hr⟩
  exact not_agrees C F N (by omega) hF (by omega) hr program hagrees

/-- Stereo, blocks of 1024 samples, and a stream of one block. -/
theorem agrees_iff_stereo : Agrees .convert 2 1024 1024 :=
  (agrees_iff .convert 2 1024 1024 (by decide) (by decide)).2 (Or.inr (Or.inr (by decide)))

/-- Stereo, blocks of 1024 samples, and a stream of 1025: the last chunk is one sample, and
its second channel is read from the middle of the first plane. -/
theorem not_agrees_stereo :
    (∃ s, run (Program.convert.context 2 1024 1025) [.accepted [stereoFrame 1025]]
        (State.init (Program.convert.context 2 1024 1025) (fun _ => 0) fun _ => 0) =
          Flow.ret (0, s) ∧
      ∃ h ∈ handed s.log, ¬ ReadsChannels (Program.convert.context 2 1024 1025) h) ∧
    ¬ Agrees .convert 2 1024 1025 :=
  ⟨exists_misread 2 1024 1025 (by decide) (by decide) (by decide) (by decide) .convert,
    not_agrees 2 1024 1025 (by decide) (by decide) (by decide) (by decide) .convert⟩

end AudioCrash.Audio
