import AudioCrash.Audio.Codecs
import AudioCrash.Audio.Planes
import AudioCrash.Codec.Decode

/-!
# From packets to packets

`AudioConvert::run` between a decoder and an encoder that are driven through libavcodec: the
frames of the decoder are cut into blocks of the size that the encoder asks for, and the packets
of the encoder are written, but for the first.

## Main definitions

* `SameOn` — samples that are equal on the channels there are.
* `content_sameOn` — the encoder is given the chunk.
* `run_transcode` — a run that returns 0.
-/

namespace AudioCrash.Audio

/-- The same samples on the first `C` channels. -/
def SameOn (C : ℕ) (l l' : List (Sample ℚ)) : Prop :=
  List.Forall₂ (fun v w => ∀ p < C, v p = w p) l l'

/-- The encoder is given the samples of the chunk, where the planes that it reads are those that
the chunk was written to. -/
theorem content_sameOn {x : Context ℚ} (hgain : ∀ args v, x.pipeline.gain args v = v)
    {h : List (Sample ℚ) × AVFrame ℚ} (hfits : Fits x h)
    (hplane : ∀ p < x.C, planeAt h.1.length p = planeAt x.F p) :
    SameOn x.C (x.content h.2) h.1 := by
  have hlength : (x.content h.2).length = h.1.length := by
    rw [Context.content, AVFrame.length_samples, hfits.nbSamples]
  rcases hfits.planes with ⟨args, hplanes⟩
  refine List.forall₂_iff_get.2 ⟨hlength, fun i hi hi' p hp => ?_⟩
  have hcell := congrArg (fun l : List ℚ => l[i]?) (hplanes p hp)
  simp only [AVFrame.read, List.getElem?_map, hgain, List.getElem?_range hi',
    List.getElem?_eq_getElem hi', Option.map_some, Option.some.injEq] at hcell
  simp only [Context.content, AVFrame.samples, List.get_eq_getElem, List.getElem_map,
    List.getElem_range, SampleFormat.isPlanar, SampleFormat.bytesPerSample, if_true]
  rw [hfits.data, hplane p hp]
  exact hcell

section run
variable {σ τ β : Type} {x : Context ℚ} {c : Encode.AVCodec σ (List (Sample ℚ)) Packet}
  {d : Decode.AVCodec τ β} {present : List β → AVFrame ℚ} {s : State ℚ}

/-- The chunks are what the encoder is given, in mono, or where the last one is rounded up to a
block. -/
theorem handed_sameOn (hgain : ∀ args v, x.pipeline.gain args v = v) {stream : List (Sample ℚ)}
    (hdone : Done x stream (0, s))
    (hlayout : x.C = 1 ∨ align32 ((stream.length - 1) % x.F + 1) = align32 x.F) :
    List.Forall₂ (SameOn x.C) (((handed s.log).map Prod.snd).map x.content) (chunks s.log) := by
  rw [List.map_map, chunks, List.forall₂_map_left_iff, List.forall₂_map_right_iff]
  refine List.forall₂_same.2 fun h hh => ?_
  refine content_sameOn hgain (hdone.fits h hh) fun p hp => ?_
  rcases hdone.length h hh with hlen | ⟨_, hlen⟩
  · rw [hlen]
  · rw [hlen]
    refine planeAt_eq ?_
    rcases hlayout with hmono | hround
    · left
      omega
    · exact Or.inr hround

/-- **A run of `AudioConvert` that returns 0, from packets to packets**: the decoder reads all of
its packets, its samples are cut into blocks, the encoder encodes them, once and in order, and
what it gives is written but for the first packet. -/
theorem run_transcode (hpipeline : x.pipeline = audioConvert) (hlength : c.nbSamples = List.length)
    (htakes : c.Takes x.F) (hok : ∀ priv f, (c.encode2 priv f).2.ret = 0)
    (hrespects : c.Respects (SameOn x.C)) {priv : σ}
    (hdelivers : Delivers (x.libavcodec c) (.rest priv false) x.ffmpeg) {dpriv : τ} {skip : ℕ}
    {packets : List (Demuxed Decode.AVPacket)} {stream : List (Sample ℚ)}
    (hstream : stream = sampleFrames x.fmt x.C
      (allFrames ((d.alone present).decode (dpriv, skip) packets).1))
    (hlayout : x.C = 1 ∨ align32 ((stream.length - 1) % x.F + 1) = align32 x.F)
    (mem : ℤ → ℚ) (handle : ℕ → ℤ)
    (hr : run x ((d.layer present).decode (.rest dpriv skip) packets).1
      (State.init x mem handle) = Flow.ret (0, s)) :
    ∃ blocks q, Segment.Blocks x.F stream blocks ∧
      Encode.encodeAll c blocks priv = Flow.next q ∧ written s.log = q.1.tail.map x.stamp := by
  rw [Decode.decode_rest d present (dpriv, skip)] at hr
  have hdone := run_done x ((d.alone present).decode (dpriv, skip) packets).1 mem handle
  rw [hr, Flow.holds_ret, stream_feedFrame x (by rw [hpipeline]; rfl), ← hstream] at hdone
  have hgain : ∀ args v, x.pipeline.gain args v = v := by
    intro args v
    rw [hpipeline]
    rfl
  rcases written_encodeAll hlength htakes hok hdone (muxed_of_run hdelivers hr) with
    ⟨q, hencode, hwritten⟩
  rw [Encode.encodeAll_congr hrespects (handed_sameOn hgain hdone hlayout)] at hencode
  exact ⟨chunks s.log, q, (hdone.complete rfl).2.1, hencode, hwritten⟩

end run

/-- `delayTwo` tells frames apart by their length only. -/
theorem delayTwo_respects (C : ℕ) : delayTwo.Respects (SameOn C) where
  nbSamples h := h.length_eq
  pad h := by
    simp only [delayTwo, h.length_eq]
    exact List.rel_append h (List.forall₂_same.2 fun _ _ _ _ => rfl)
  encode held h := by simp only [delayTwo, Option.map_some, h.length_eq]
  stamp _ := rfl

/-- Bytes as the samples of a frame. -/
def byteFrame (bytes : List UInt8) : AVFrame ℚ :=
  ⟨bytes.length, fun _ => 0, fun a => (bytes.getD (a / 4).toNat 0).toNat⟩

/-- Seven bytes in two packets, the first of which is skipped. -/
theorem run_transcode_bytes :
    let packets := [Demuxed.selected ⟨[1, 2, 3, 4], none⟩, .other, .selected ⟨[5, 6, 7], none⟩]
    let events := ((Decode.pairs.layer byteFrame).decode (.rest () 1) packets).1
    ∃ s, run delayTwoContext events (State.init delayTwoContext (fun _ => 0) fun _ => 0) =
        Flow.ret (0, s) ∧
      ∃ blocks q, Segment.Blocks 2 (sampleFrames .fltp 1 (allFrames
          ((Decode.pairs.alone byteFrame).decode ((), 1) packets).1)) blocks ∧
        Encode.encodeAll delayTwo blocks none = Flow.next q ∧
        written s.log = q.1.tail.map delayTwoContext.stamp := by
  intro packets events
  have hhealthy : delayTwoContext.ffmpeg.Healthy := by
    constructor <;> intro log <;> rfl
  rcases run_eq_ret delayTwoContext hhealthy (by decide) events (fun _ => 0) (fun _ => 0) with
    ⟨s, hs⟩
  exact ⟨s, hs, run_transcode rfl rfl (Or.inl rfl) (fun _ _ => rfl) (delayTwo_respects 1)
    (fun _ => rfl) rfl (Or.inl rfl) _ _ hs⟩

end AudioCrash.Audio
