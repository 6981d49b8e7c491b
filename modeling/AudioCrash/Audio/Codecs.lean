import AudioCrash.Audio.Encoding
import AudioCrash.Codec.Encode

/-!
# A run over libavcodec

What `run` hands over is what an encoder of FFmpeg asks for: frames of the size it wants, and one
that may be shorter at the end. None is refused, and over `avcodec_send_frame` and
`avcodec_receive_packet` the run writes the packets that the function of the encoder gives for
the chunks, but the first.

## Main definitions

* `Context.content` — the samples of a frame that is handed over.
* `Context.libavcodec` — the calls of libavcodec as an `Encoder`.
* `handed_sized` — the sizes of the frames.
* `run_libavcodec` — a run that returns 0.
-/

namespace AudioCrash.Audio

variable {σ α : Type} (x : Context α) (c : Encode.AVCodec σ (List (Sample α)) Packet)

/-- The samples of a frame that is handed over. -/
def Context.content (frame : AVFrame α) : List (Sample α) :=
  frame.samples .fltp x.C frame.nbSamples frame.data

/-- `avcodec_send_frame`, and `avcodec_receive_packet` until there is no packet. -/
def Context.libavcodec : Encoder (Encode.AVCodecContext σ (List (Sample α)) Packet) α where
  send s frame :=
    match Encode.feed c (frame.map x.content) ([], s) with
    | .next (pkts, s) => (s, pkts)
    | .ret (_, pkts, s) => (s, pkts)
    | .hang => (s, [])

section layer
variable {x c}

/-- A frame that the function encodes gives the same packets through libavcodec. -/
theorem libavcodec_send {frame : AVFrame α} {priv : σ} {last : Bool}
    {q : List Packet × σ × Bool}
    (h : Encode.encodeFrame c (x.content frame) ([], priv, last) = Flow.next q) :
    (x.libavcodec c).send (.rest priv last) (some frame) = (.rest q.2.1 q.2.2, q.1) := by
  have hrelated := Encode.feed_related c (x.content frame)
    (p := ([], .rest priv last)) (q := ([], priv, last)) ⟨rfl, rfl⟩
  rw [h] at hrelated
  simp only [Context.libavcodec, Option.map_some]
  cases hfeed : Encode.feed c (some (x.content frame)) ([], .rest priv last) with
  | ret r => rw [hfeed] at hrelated; exact hrelated.elim
  | hang => rw [hfeed] at hrelated; exact hrelated.elim
  | next p =>
    rw [hfeed] at hrelated
    rcases p with ⟨pkts, s⟩
    obtain rfl : pkts = q.1 := hrelated.packets
    obtain rfl : s = .rest q.2.1 q.2.2 := hrelated.context
    rfl

/-- The frames of a run, one after the other. -/
theorem output_libavcodec {frames : List (AVFrame α)} {pkts : List Packet} {priv : σ} {last : Bool}
    {q : List Packet × σ × Bool} (tail : List (Option (AVFrame α)))
    (h : Flow.forEach (Encode.encodeFrame c) (frames.map x.content) (pkts, priv, last) =
      Flow.next q) :
    q.1 ++ (x.libavcodec c).output (.rest q.2.1 q.2.2) tail =
      pkts ++ (x.libavcodec c).output (.rest priv last) (frames.map some ++ tail) := by
  induction frames generalizing pkts priv last with
  | nil =>
    cases h
    rfl
  | cons frame frames ih =>
    rw [List.map_cons, Flow.forEach_cons] at h
    rcases Flow.bind_eq_next_iff.1 h with ⟨q₁, hframe, hrest⟩
    rcases Encode.encodeFrame_eq_next hframe with ⟨out, hout, halone⟩
    rcases q₁ with ⟨pkts₁, priv₁, last₁⟩
    obtain rfl : pkts₁ = pkts ++ out := hout
    rw [ih hrest, List.append_assoc, List.map_cons, List.cons_append, Encoder.output,
      libavcodec_send halone]

/-- And the null frame. -/
theorem output_libavcodec_null {q : List Packet × σ × Bool} {q' : List Packet × σ}
    (h : Encode.encodeNull c q = Flow.next q') :
    q'.1 = q.1 ++ (x.libavcodec c).output (.rest q.2.1 q.2.2) [none] := by
  rcases q with ⟨pkts, priv, last⟩
  rcases Encode.encodeNull_eq_next h with ⟨out, hout, halone⟩
  have hrelated := Encode.feed_null_related c (p := ([], .rest priv last))
    (q := ([], priv, last)) ⟨rfl, rfl⟩
  rw [halone] at hrelated
  have hsend : ((x.libavcodec c).send (.rest priv last) none).2 = out := by
    simp only [Context.libavcodec, Option.map_none]
    cases hfeed : Encode.feed c none ([], .rest priv last) with
    | ret r => rw [hfeed] at hrelated; exact hrelated.elim
    | hang => rw [hfeed] at hrelated; exact hrelated.elim
    | next p =>
      rw [hfeed] at hrelated
      exact hrelated.packets
  rw [hout, Encoder.output, Encoder.output, hsend, List.append_nil]

/-- The whole stream. -/
theorem encodeAll_libavcodec {frames : List (AVFrame α)} {priv : σ} {q : List Packet × σ}
    (h : Encode.encodeAll c (frames.map x.content) priv = Flow.next q) :
    (x.libavcodec c).output (.rest priv false) (frames.map some ++ [none]) = q.1 := by
  rcases Flow.bind_eq_next_iff.1 h with ⟨q', hframes, hnull⟩
  have houtput := output_libavcodec [none] hframes
  rw [List.nil_append] at houtput
  rw [← houtput, output_libavcodec_null hnull]

end layer

/-! ## The sizes -/

section run
variable {x : Context α} {c : Encode.AVCodec σ (List (Sample α)) Packet} {s : State α}

/-- **The frames have the sizes that the encoder asks for.** -/
theorem handed_sized (hlength : c.nbSamples = List.length) {stream : List (Sample α)}
    (h : Done x stream (0, s)) :
    Encode.Sized c x.F (((handed s.log).map Prod.snd).map x.content) := by
  have hblocks := (h.complete rfl).2.1
  have hcontent : ∀ p ∈ handed s.log, c.nbSamples (x.content p.2) = p.1.length := by
    intro p hp
    rw [hlength, Context.content, AVFrame.length_samples, (h.fits p hp).nbSamples]
  rw [List.map_map]
  constructor
  · intro f hf
    rw [← List.map_dropLast, List.mem_map] at hf
    rcases hf with ⟨p, hp, rfl⟩
    have hchunk : p.1 ∈ (chunks s.log).dropLast := by
      rw [chunks, ← List.map_dropLast]
      exact List.mem_map_of_mem hp
    exact (hcontent p (List.dropLast_subset _ hp)).trans (hblocks.full _ hchunk)
  · intro f hf
    rw [List.getLast?_map, Option.mem_def, Option.map_eq_some_iff] at hf
    rcases hf with ⟨p, hp, rfl⟩
    have hchunk : p.1 ∈ (chunks s.log).getLast? := by
      rw [chunks, List.getLast?_map, hp]
      rfl
    exact (hcontent p (List.mem_of_getLast? hp)).trans_le (hblocks.last _ hchunk).2

/-- What is written by a run that returns 0. -/
theorem muxed_of_run {e : Encoder σ α} {s₀ : σ} (hdelivers : Delivers e s₀ x.ffmpeg)
    {events : List (Event α)} {mem : ℤ → α} {handle : ℕ → ℤ}
    (hr : run x events (State.init x mem handle) = Flow.ret (0, s)) : Muxed x e s₀ s := by
  have hmuxed : Flow.Holds (fun _ => False) (fun r => r.1 = 0 → Muxed x e s₀ r.2)
      (run x events (State.init x mem handle)) := by
    have hinit : Running x e s₀ (State.init x mem handle) := Running.init mem handle
    have hloop := Flow.holds_forEach_const events hinit
      fun event s hs => onPacket_running hdelivers event hs
    refine (hloop.imp_ret fun _ hr hzero => absurd hzero hr).bind fun s hs =>
      Flow.Holds.bind (P := Running x e s₀) ?_ fun s hs => finish_muxed hdelivers hs
    split_ifs
    · exact hs
    · exact (drain_running hdelivers hs).imp_ret fun _ hr hzero => absurd hzero hr
  rw [hr, Flow.holds_ret] at hmuxed
  exact hmuxed rfl

/-- The packets that are written are those of the function for the frames handed over. -/
theorem written_encodeAll (hlength : c.nbSamples = List.length) (htakes : c.Takes x.F)
    (hok : ∀ priv f, (c.encode2 priv f).2.ret = 0) {priv : σ} {stream : List (Sample α)}
    (hdone : Done x stream (0, s)) (hmuxed : Muxed x (x.libavcodec c) (.rest priv false) s) :
    ∃ q, Encode.encodeAll c (((handed s.log).map Prod.snd).map x.content) priv = Flow.next q ∧
      written s.log = q.1.tail.map x.stamp := by
  rcases Encode.forEach_encodeFrame_eq_next htakes hok (handed_sized hlength hdone) [] priv with
    ⟨q, hframes⟩
  rcases Encode.exists_encodeNull_eq_next hok q with ⟨q', hnull⟩
  have hall : Encode.encodeAll c (((handed s.log).map Prod.snd).map x.content) priv =
      Flow.next q' := by rw [Encode.encodeAll, hframes, Flow.bind_next, hnull]
  refine ⟨q', hall, ?_⟩
  have hsent : sent s.log = ((handed s.log).map Prod.snd).map some ++ [none] := by
    rw [hmuxed.sent, List.map_map]
    rfl
  rw [hmuxed.written, hsent, encodeAll_libavcodec hall]

/-- **A run over libavcodec that returns 0** has had every chunk encoded, once and in order, and
what is held back at the end; it has written all of the packets but the first. -/
theorem run_libavcodec (hlength : c.nbSamples = List.length) (htakes : c.Takes x.F)
    (hok : ∀ priv f, (c.encode2 priv f).2.ret = 0) {priv : σ}
    (hdelivers : Delivers (x.libavcodec c) (.rest priv false) x.ffmpeg)
    (events : List (Event α)) (mem : ℤ → α) (handle : ℕ → ℤ)
    (hr : run x events (State.init x mem handle) = Flow.ret (0, s)) :
    ∃ q, Encode.encodeAll c (((handed s.log).map Prod.snd).map x.content) priv = Flow.next q ∧
      written s.log = q.1.tail.map x.stamp := by
  have hdone := run_done x events mem handle
  rw [hr, Flow.holds_ret] at hdone
  exact written_encodeAll hlength htakes hok hdone (muxed_of_run hdelivers hr)

end run

/-- An encoder with a delay of one frame, which wants frames of two samples: a packet tells the
number of samples. -/
def delayTwo : Encode.AVCodec (Option Packet) (List (Sample ℚ)) Packet where
  audio := true
  capDelay := true
  capSmallLastFrame := false
  capVariableFrameSize := false
  frameSize := 2
  nbSamples := List.length
  padLastFrame frame := frame ++ List.replicate (2 - frame.length) fun _ => 0
  encode2 held frame := (frame.map fun f => ⟨f.length, 0, 0, 0, 0⟩, ⟨0, held⟩)
  stamp _ pkt := pkt
  ret_nonpos _ _ := Int.le_refl 0
  ret_ne_eagain _ _ := (by decide : (0 : ℤ) ≠ Encode.eagain)
  ret_ne_eof _ _ := (by decide : (0 : ℤ) ≠ Encode.eof)
  left held := if held.isSome then 1 else 0
  left_lt held h := by
    rw [Option.isSome_iff_ne_none.2 h]
    exact Nat.zero_lt_one

/-- Blocks of two samples, with that encoder. -/
def delayTwoContext : Context ℚ :=
  let x := Program.convert.context 1 2 5
  { x with
    ffmpeg :=
      { x.ffmpeg with
        packets := fun log =>
          ((x.libavcodec delayTwo).output (.rest none false) (sent log)).drop
            (received log).length } }

/-- Five samples, the last of them in a frame that is padded. -/
theorem run_libavcodec_two :
    ∃ s, run delayTwoContext [.accepted [stereoFrame 5]]
        (State.init delayTwoContext (fun _ => 0) fun _ => 0) = Flow.ret (0, s) ∧
      ∃ q, Encode.encodeAll delayTwo
          (((handed s.log).map Prod.snd).map delayTwoContext.content) none = Flow.next q ∧
        written s.log = q.1.tail.map delayTwoContext.stamp := by
  have hhealthy : delayTwoContext.ffmpeg.Healthy := by
    constructor <;> intro log <;> rfl
  rcases run_eq_ret delayTwoContext hhealthy (by decide) [.accepted [stereoFrame 5]] (fun _ => 0)
    (fun _ => 0) with ⟨s, hs⟩
  exact ⟨s, hs, run_libavcodec rfl (Or.inl rfl) (fun _ _ => rfl) (fun _ => rfl) _ _ _ hs⟩

end AudioCrash.Audio
