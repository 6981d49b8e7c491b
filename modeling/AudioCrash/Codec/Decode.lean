import AudioCrash.Audio.Draining
import AudioCrash.Codec.Encode
import AudioCrash.Lib.Producer

/-!
# Receiving frames from an audio decoder

An audio decoder of FFmpeg is a function: it takes the data of a packet, or none when it is to
give what it holds back, reads a part of them, and gives a frame or none. `avcodec_send_packet`
and `avcodec_receive_frame` stand between the caller and this function. They call it until a
packet has been read, trim the frames as the packet says, and keep a frame that has been decoded
ahead.

A caller that receives until there is nothing to receive after every packet, as `run` does, sees
nothing of what waits. Frame threads are left out, the limit on what one call may discard, and
decoders that set `skip_samples` while they decode.

## Main definitions

* `AVCodec`, `AVCodecContext` — the function, and what waits.
* `trim` — the samples to skip and to discard.
* `avcodecSendPacket`, `avcodecReceiveFrame` — the calls.
* `AVCodec.layer`, `AVCodec.alone` — the calls and the function alone, as an `Audio.Decoder`.
* `decode_layer` — the two agree.
* `output_skip` — the samples to skip are the first of the stream.
-/

namespace AudioCrash.Decode

open Encode (eagain einval eof bug)

/-! ## The model -/

/-- A frame: its samples, and `AV_FRAME_FLAG_DISCARD`. -/
structure Frame (β : Type) where
  samples : List β
  discard : Bool

/-- What `decode` has done. There is a frame when `got_frame` is set. -/
inductive Decoded (β : Type) where
  | failed (code : ℤ)
  | read (ret : ℕ) (frame : Option (Frame β))

/-- A packet, and the numbers in its `AV_PKT_data_SKIP_SAMPLES`, which have 32 bits. -/
structure AVPacket where
  data : List UInt8
  side : Option (ℕ × ℕ)

/-- An audio decoder, for an `AVCodecContext` that has been opened. -/
structure AVCodec (σ β : Type) where
  capDelay : Bool
  /-- `skip_samples_multiplier`, which a decoder may set while it decodes. -/
  skipMultiplier : σ → ℕ
  /-- Without data it is to give what it holds back. -/
  decode : σ → List UInt8 → σ × Decoded β
  failed_neg : ∀ s data code, (decode s data).2 = .failed code → code < 0
  failed_ne_eagain : ∀ s data code, (decode s data).2 = .failed code → code ≠ eagain
  failed_ne_eof : ∀ s data code, (decode s data).2 = .failed code → code ≠ eof
  /-- How many more calls there are for these data, at most. -/
  left : σ → List UInt8 → ℕ
  left_read : ∀ s data n frame, (decode s data).2 = .read n frame → n < data.length →
    left (decode s data).1 (data.drop n) < left s data
  left_flush : ∀ s n frame, (decode s []).2 = .read n (some frame) →
    left (decode s []).1 [] < left s []

/-- `AVCodecContext` with its `AVCodecInternal`. -/
structure AVCodecContext (σ β : Type) where
  priv : σ
  /-- What waits in the bit-stream filter, which passes it on as it is. -/
  bsfPkt : Option AVPacket
  bsfEof : Bool
  /-- The data of `ds.in_pkt` that have not been read. -/
  inPkt : List UInt8
  /-- The numbers in `last_pkt_props`. -/
  lastSide : Option (ℕ × ℕ)
  skipSamples : ℕ
  draining : Bool
  drainingDone : Bool
  nbDrainingErrors : ℕ
  bufferFrame : Option (List β)

section trim
variable {β : Type}

/-- The samples that are skipped at the start of a frame, and what is left to skip. -/
def skipFront (skip : ℕ) (samples : List β) : Option (List β) × ℕ :=
  if 0 < skip then
    if samples.length ≤ skip then (none, skip - samples.length)
    else (some (samples.drop skip), 0)
  else (some samples, skip)

/-- The samples that are discarded at the end of a frame. -/
def discardBack (padding : ℕ) (samples : List β) : Option (List β) :=
  if 0 < padding ∧ padding ≤ samples.length then
    if padding = samples.length then none
    else some (samples.take (samples.length - padding))
  else some samples

theorem discardBack_zero (samples : List β) : discardBack 0 samples = some samples := by
  rw [discardBack, if_neg (by simp)]

/-- `skip_samples` after the side data have been looked at. The product is stored in an `int`,
and where this is negative nothing is skipped, as for 0. -/
def skipOf (multiplier : ℕ) (side : Option (ℕ × ℕ)) (skip : ℕ) : ℕ :=
  side.elim skip fun numbers => (((numbers.1 * multiplier : ℕ) : ℤ).bmod (2 ^ 32)).toNat

/-- What `decode_simple_internal` leaves of a frame, and of `skip_samples`. -/
def trim (multiplier : ℕ) (side : Option (ℕ × ℕ)) (skip : ℕ) :
    Option (Frame β) → Option (List β) × ℕ
  | none => (none, skipOf multiplier side skip)
  | some frame =>
    if frame.discard then (none, skipOf multiplier side skip - frame.samples.length)
    else
      let front := skipFront (skipOf multiplier side skip) frame.samples
      (front.1.bind (discardBack (side.elim 0 Prod.snd)), front.2)

end trim

section calls
variable {σ β : Type}

/-- A function returns 0, with a frame, or a negative code. -/
abbrev Answer (σ β : Type) :=
  Flow (ℤ × AVCodecContext σ β) (Option (List β) × AVCodecContext σ β)

/-- `ff_decode_get_packet(avctx, ds->in_pkt)`. -/
def ffDecodeGetPacket (s : AVCodecContext σ β) : ℤ × AVCodecContext σ β :=
  if s.draining then (eof, s)
  else if s.bsfEof then (eof, { s with draining := true })
  else
    match s.bsfPkt with
    | none => (eagain, s)
    | some pkt => (0, { s with bsfPkt := none, inPkt := pkt.data, lastSide := pkt.side })

/-- The errors while draining are counted: after 21 of them it ends. -/
def countErrors (code : ℤ) (s : AVCodecContext σ β) : ℤ × AVCodecContext σ β :=
  if s.draining then
    if 21 ≤ s.nbDrainingErrors then
      (bug, { s with nbDrainingErrors := s.nbDrainingErrors + 1, drainingDone := true })
    else (code, { s with nbDrainingErrors := s.nbDrainingErrors + 1 })
  else (code, s)

variable (c : AVCodec σ β) (fuel : ℕ)

/-- `decode_simple_internal`, from the call of `decode` on. -/
def decodeInPacket (s : AVCodecContext σ β) : Answer σ β :=
  let e := c.decode s.priv s.inPkt
  match e.2 with
  | .failed code =>
    Flow.ret (countErrors code { s with
      priv := e.1
      skipSamples := skipOf (c.skipMultiplier e.1) s.lastSide s.skipSamples
      inPkt := []
      lastSide := none })
  | .read n frame =>
    let trimmed := trim (c.skipMultiplier e.1) s.lastSide s.skipSamples frame
    Flow.next (trimmed.1, { s with
      priv := e.1
      skipSamples := trimmed.2
      drainingDone := s.draining && frame.isNone
      inPkt := s.inPkt.drop n
      -- the side data stay until all of the packet has been read
      lastSide := if s.inPkt.length ≤ n then none else s.lastSide })

/-- `decode_simple_internal`. -/
def decodeSimpleInternal (s : AVCodecContext σ β) : Answer σ β :=
  let get := if s.inPkt.isEmpty && !s.draining then ffDecodeGetPacket s else (0, s)
  if get.1 < 0 && get.1 ≠ eof then Flow.ret get
  else if get.2.drainingDone then Flow.ret (eof, get.2)
  else if get.2.inPkt.isEmpty && !c.capDelay then Flow.ret (eof, get.2)
  else decodeInPacket c get.2

/-- `decode_simple_receive_frame`. -/
def decodeSimpleReceiveFrame (s : AVCodecContext σ β) : Answer σ β :=
  Producer.first (decodeSimpleInternal c) fuel s

/-- The end of `decode_receive_frame_internal` without a frame. -/
def markEof (r : ℤ × AVCodecContext σ β) : ℤ × AVCodecContext σ β :=
  (r.1, if r.1 = eof then { r.2 with drainingDone := true } else r.2)

/-- `decode_receive_frame_internal`. -/
def decodeReceiveFrameInternal (s : AVCodecContext σ β) : Answer σ β :=
  match decodeSimpleReceiveFrame c fuel s with
  | .ret r => Flow.ret (markEof r)
  | answer => answer

/-- `avcodec_send_packet` from the call of `decode_receive_frame_internal` on. -/
def decodeAhead (s : AVCodecContext σ β) : Flow (ℤ × AVCodecContext σ β) (AVCodecContext σ β) :=
  match s.bufferFrame with
  | some _ => Flow.next s
  | none =>
    match decodeReceiveFrameInternal c fuel s with
    | .next (frame, s) => Flow.next { s with bufferFrame := frame }
    | .ret (code, s) =>
      if code < 0 && code ≠ eagain && code ≠ eof then Flow.ret (code, s) else Flow.next s
    | .hang => Flow.hang

/-- `avcodec_send_packet`. A packet without data is refused. -/
def avcodecSendPacket (pkt : Option AVPacket) (s : AVCodecContext σ β) :
    Flow (ℤ × AVCodecContext σ β) (AVCodecContext σ β) :=
  if s.draining then Flow.ret (eof, s)
  else
    match pkt with
    | none => decodeAhead c fuel { s with bsfEof := true }
    | some pkt =>
      if pkt.data.isEmpty then Flow.ret (einval, s)
      else if s.bsfEof then Flow.ret (einval, s)
      else if s.bsfPkt.isSome then Flow.ret (eagain, s)
      else decodeAhead c fuel { s with bsfPkt := some pkt }

/-- `avcodec_receive_frame`. -/
def avcodecReceiveFrame (s : AVCodecContext σ β) : Answer σ β :=
  match s.bufferFrame with
  | some frame => Flow.next (some frame, { s with bufferFrame := none })
  | none => decodeReceiveFrameInternal c fuel s

/-- `avcodec_send_packet`, and `avcodec_receive_frame` until it gives no frame. -/
def feed (pkt : Option AVPacket) (s : AVCodecContext σ β) :
    Flow (ℤ × AVCodecContext σ β) (List (List β) × AVCodecContext σ β) :=
  (avcodecSendPacket c fuel pkt s).bind fun s =>
  (Producer.collect (avcodecReceiveFrame c fuel) fuel s).bind fun got =>
  Flow.next (got.1, got.2.2)

/-! ## The function alone -/

/-- The data are read until nothing is left of them, or the function fails: the frames, the code,
and what comes after. -/
def decodeData (side : Option (ℕ × ℕ)) : ℕ → List UInt8 → σ → ℕ → List (List β) × ℤ × σ × ℕ
  | 0, _, priv, skip => ([], eagain, priv, skip)
  | n + 1, data, priv, skip =>
    let e := c.decode priv data
    match e.2 with
    | .failed code => ([], code, e.1, skipOf (c.skipMultiplier e.1) side skip)
    | .read ret frame =>
      let trimmed := trim (c.skipMultiplier e.1) side skip frame
      let rest :=
        if data.length ≤ ret then ([], eagain, e.1, trimmed.2)
        else decodeData side n (data.drop ret) e.1 trimmed.2
      (trimmed.1.toList ++ rest.1, rest.2)

/-- What is held back comes out, until there is no frame. -/
def flush : ℕ → σ → ℕ → List (List β) × ℤ
  | 0, _, _ => ([], eof)
  | n + 1, priv, skip =>
    let e := c.decode priv []
    match e.2 with
    | .failed code => ([], code)
    | .read _ none => ([], eof)
    | .read _ (some frame) =>
      let trimmed := trim (c.skipMultiplier e.1) none skip (some frame)
      let rest := flush n e.1 trimmed.2
      (trimmed.1.toList ++ rest.1, rest.2)

end calls

/-! ## The single calls -/

section specs
variable {σ β : Type} (c : AVCodec σ β) (priv : σ) (skip : ℕ)

/-- A context that has just been opened, or waits for a packet. -/
def AVCodecContext.rest : AVCodecContext σ β :=
  ⟨priv, none, false, [], none, skip, false, false, 0, none⟩

@[simp] theorem AVCodecContext.rest_priv :
    (AVCodecContext.rest priv skip : AVCodecContext σ β).priv = priv := rfl

/-- A context in the middle of a packet. -/
def AVCodecContext.busy (data : List UInt8) (side : Option (ℕ × ℕ)) : AVCodecContext σ β :=
  ⟨priv, none, false, data, side, skip, false, false, 0, none⟩

/-- A context after the null packet. -/
def AVCodecContext.drain (done : Bool) (errors : ℕ) : AVCodecContext σ β :=
  ⟨priv, none, true, [], none, skip, true, done, errors, none⟩

theorem decodeSimpleInternal_rest :
    decodeSimpleInternal c (.rest priv skip) = Flow.ret (eagain, .rest priv skip) := rfl

theorem decodeSimpleInternal_busy {data : List UInt8} (hdata : data ≠ [])
    (side : Option (ℕ × ℕ)) :
    decodeSimpleInternal c (.busy priv skip data side) =
      decodeInPacket c (.busy priv skip data side) := by
  simp [decodeSimpleInternal, AVCodecContext.busy, hdata]

theorem decodeSimpleInternal_done :
    decodeSimpleInternal c (.drain priv skip true 0) = Flow.ret (eof, .drain priv skip true 0) :=
  rfl

/-- The calls for the data of a packet. -/
theorem yields_busy (side : Option (ℕ × ℕ)) {data : List UInt8} (hdata : data ≠ []) {n : ℕ}
    (hn : c.left priv data < n) :
    ∃ calls ≤ n + 1, Producer.Yields (decodeSimpleInternal c) calls (.busy priv skip data side)
      (decodeData c side n data priv skip).1
      ((decodeData c side n data priv skip).2.1,
        .rest (decodeData c side n data priv skip).2.2.1
          (decodeData c side n data priv skip).2.2.2) := by
  induction n generalizing data priv skip with
  | zero => exact absurd hn (Nat.not_lt_zero _)
  | succ n ih =>
    have hstep := decodeSimpleInternal_busy c priv skip hdata side
    rw [decodeInPacket] at hstep
    rw [decodeData]
    cases hdecode : (c.decode priv data).2 with
    | failed code =>
      refine ⟨1, by omega, .stop ?_⟩
      rw [hstep]
      simp only [AVCodecContext.busy, hdecode]
      rfl
    | read ret frame =>
      simp only [AVCodecContext.busy, hdecode, Bool.false_and] at hstep
      by_cases hread : data.length ≤ ret
      · simp only [hread, if_true, List.drop_eq_nil_of_le hread] at hstep ⊢
        exact ⟨2, by omega, .call hstep (.stop (decodeSimpleInternal_rest c _ _))⟩
      · simp only [hread, if_false] at hstep ⊢
        have hleft := c.left_read priv data ret frame hdecode (by omega)
        have hrest : data.drop ret ≠ [] := by
          rw [Ne, List.drop_eq_nil_iff]
          exact hread
        rcases ih (c.decode priv data).1
          (trim (c.skipMultiplier (c.decode priv data).1) side skip frame).2 hrest (by omega) with
          ⟨calls, hcalls, hyields⟩
        exact ⟨calls + 1, by omega, .call hstep hyields⟩

/-- The calls for the null packet, where the decoder has a delay. -/
theorem yields_drain (hdelay : c.capDelay = true) {n : ℕ} (hn : c.left priv [] < n) :
    ∃ calls ≤ n + 1, ∃ s, Producer.Yields (decodeSimpleInternal c) calls
      (.drain priv skip false 0) (flush c n priv skip).1 ((flush c n priv skip).2, s) ∧
      ((flush c n priv skip).2 = eof → ∃ priv' skip', s = .drain priv' skip' true 0) := by
  induction n generalizing priv skip with
  | zero => exact absurd hn (Nat.not_lt_zero _)
  | succ n ih =>
    have hstep : decodeSimpleInternal c (.drain priv skip false 0) =
        decodeInPacket c (.drain priv skip false 0) := by
      simp [decodeSimpleInternal, AVCodecContext.drain, hdelay]
    rw [decodeInPacket] at hstep
    rw [flush]
    cases hdecode : (c.decode priv []).2 with
    | failed code =>
      simp only [AVCodecContext.drain, hdecode] at hstep
      have hne := c.failed_ne_eof priv [] code hdecode
      exact ⟨1, by omega, _, .stop hstep, fun heof => absurd heof hne⟩
    | read ret frame =>
      simp only [AVCodecContext.drain, hdecode, Bool.true_and, List.drop_nil] at hstep
      cases frame with
      | none =>
        exact ⟨2, by omega, _, .call hstep (.stop (decodeSimpleInternal_done c _ _)),
          fun _ => ⟨_, _, rfl⟩⟩
      | some frame =>
        have hleft := c.left_flush priv ret frame hdecode
        rcases ih (c.decode priv []).1
          (trim (c.skipMultiplier (c.decode priv []).1) none skip (some frame)).2 (by omega) with
          ⟨calls, hcalls, s, hyields, hdone⟩
        refine ⟨calls + 1, by omega, s, .call hstep ?_, hdone⟩
        exact hyields

/-! ## The caller -/

theorem bufferFrame_ffDecodeGetPacket {s : AVCodecContext σ β} (hs : s.bufferFrame = none) :
    (ffDecodeGetPacket s).2.bufferFrame = none := by
  rw [ffDecodeGetPacket]
  split_ifs
  · exact hs
  · exact hs
  · cases s.bsfPkt <;> exact hs

theorem bufferFrame_decodeInPacket {s : AVCodecContext σ β}
    {p : Option (List β) × AVCodecContext σ β} (hs : s.bufferFrame = none)
    (h : decodeInPacket c s = Flow.next p) : p.2.bufferFrame = none := by
  rw [decodeInPacket] at h
  cases hdecode : (c.decode s.priv s.inPkt).2 with
  | failed code =>
    simp only [hdecode] at h
    cases h
  | read ret frame =>
    simp only [hdecode] at h
    cases h
    exact hs

/-- Only `avcodec_send_packet` stores a frame. -/
theorem bufferFrame_decodeSimpleInternal {s : AVCodecContext σ β}
    {p : Option (List β) × AVCodecContext σ β} (hs : s.bufferFrame = none)
    (h : decodeSimpleInternal c s = Flow.next p) : p.2.bufferFrame = none := by
  rw [decodeSimpleInternal] at h
  split_ifs at h
  · exact bufferFrame_decodeInPacket c (bufferFrame_ffDecodeGetPacket hs) h
  · exact bufferFrame_decodeInPacket c hs h

theorem markEof_markEof (r : ℤ × AVCodecContext σ β) : markEof (markEof r) = markEof r := by
  by_cases h : r.1 = eof
  · simp [markEof, h]
  · simp [markEof, h]

section receive
variable {c} {s : AVCodecContext σ β} {n m fuel : ℕ} {l : List (List β)}
  {r : ℤ × AVCodecContext σ β} {p : Option (List β) × AVCodecContext σ β}

theorem decodeReceiveFrameInternal_next
    (h : Producer.first (decodeSimpleInternal c) fuel s = Flow.next p) :
    decodeReceiveFrameInternal c fuel s = Flow.next p := by
  rw [decodeReceiveFrameInternal, decodeSimpleReceiveFrame, h]

theorem decodeReceiveFrameInternal_ret
    (h : Producer.first (decodeSimpleInternal c) fuel s = Flow.ret r) :
    decodeReceiveFrameInternal c fuel s = Flow.ret (markEof r) := by
  rw [decodeReceiveFrameInternal, decodeSimpleReceiveFrame, h]

theorem avcodecReceiveFrame_none (hs : s.bufferFrame = none) :
    avcodecReceiveFrame c fuel s = decodeReceiveFrameInternal c fuel s := by
  rw [avcodecReceiveFrame, hs]

/-- What `avcodec_receive_frame` gives when no frame waits. -/
theorem collect_yields (hs : s.bufferFrame = none)
    (h : Producer.Yields (decodeSimpleInternal c) n s l r) (hfuel : n ≤ fuel)
    (hm : l.length < m) {R : Type} :
    (Producer.collect (avcodecReceiveFrame c fuel) m s : Flow R _) = Flow.next (l, markEof r) := by
  refine h.collect (P := fun s => s.bufferFrame = none)
    (fun _ _ hs hnext => bufferFrame_decodeSimpleInternal c hs hnext) ?_ ?_ hs hfuel hm
  · intro s p hs hfirst
    rw [avcodecReceiveFrame_none hs, decodeReceiveFrameInternal_next hfirst]
  · intro s r hs hfirst
    rw [avcodecReceiveFrame_none hs, decodeReceiveFrameInternal_ret hfirst]

/-- A frame that has been decoded ahead is received first, and then the others. -/
theorem decodeAhead_collect (hs : s.bufferFrame = none)
    (h : Producer.Yields (decodeSimpleInternal c) n s l r) (hfuel : n ≤ fuel) (hneg : r.1 < 0)
    (hidle : r.1 = eagain ∨ r.1 = eof → (markEof r).2.bufferFrame = none ∧
      decodeSimpleInternal c (markEof r).2 = Flow.ret (markEof r)) :
    ((decodeAhead c fuel s).bind fun s =>
      (Producer.collect (avcodecReceiveFrame c fuel) fuel s).bind fun got =>
      Flow.next (got.1, got.2.2)) =
      if l = [] ∧ r.1 ≠ eagain ∧ r.1 ≠ eof then Flow.ret (markEof r)
      else Flow.next (l, (markEof r).2) := by
  have hlength := h.length_lt
  rw [decodeAhead, hs]
  cases l with
  | nil =>
    dsimp only
    rw [decodeReceiveFrameInternal_ret (h.first_nil hfuel)]
    rcases hr : markEof r with ⟨code, s'⟩
    obtain rfl : r.1 = code := congrArg Prod.fst hr
    by_cases hcode : r.1 = eagain ∨ r.1 = eof
    · rcases hidle hcode with ⟨hbuffer, hrest⟩
      -- `avcodec_send_packet` returns 0, and the first call after it finds nothing
      have hcalls : 1 ≤ fuel := by omega
      have hcollect := collect_yields (R := ℤ × AVCodecContext σ β) (m := fuel) hbuffer
        (.stop hrest) hcalls (hlength.trans_le hfuel)
      rw [markEof_markEof, hr] at hcollect
      have hgoesOn : (r.1 < 0 && r.1 ≠ eagain && r.1 ≠ eof) = false := by
        rcases hcode with hcode | hcode <;> simp [hcode]
      have hnot : ¬ (([] : List (List β)) = [] ∧ r.1 ≠ eagain ∧ r.1 ≠ eof) := by tauto
      dsimp only
      rw [hgoesOn, if_neg hnot, if_neg Bool.false_ne_true, Flow.bind_next, hcollect,
        Flow.bind_next]
    · have hrejects : (r.1 < 0 && r.1 ≠ eagain && r.1 ≠ eof) = true := by
        simp only [not_or] at hcode
        simp [hneg, hcode.1, hcode.2]
      dsimp only
      rw [if_pos hrejects, Flow.bind_ret, if_pos ⟨rfl, not_or.1 hcode⟩]
  | cons frame l =>
    rcases h.first_cons hfuel with ⟨k, s₁, hfirst, hlt, hyields⟩
    have hbuffer : s₁.bufferFrame = none :=
      Producer.first_invariant (P := fun s => s.bufferFrame = none)
        (fun _ _ hs hnext => bufferFrame_decodeSimpleInternal c hs hnext) hs hfirst
    have hlength' := hyields.length_lt
    obtain ⟨calls, rfl⟩ : ∃ calls, fuel = calls + 1 := ⟨fuel - 1, by omega⟩
    have hreceive : avcodecReceiveFrame c (calls + 1) { s₁ with bufferFrame := some frame } =
        Flow.next (some frame, s₁) := by
      rcases s₁ with ⟨_, _, _, _, _, _, _, _, _, _⟩
      obtain rfl := hbuffer
      rfl
    dsimp only
    rw [decodeReceiveFrameInternal_next hfirst, Flow.bind_next, Producer.collect, hreceive]
    dsimp only
    rw [collect_yields hbuffer hyields (by omega) (by omega), if_neg (by simp)]
    rfl

end receive

theorem eagain_code : eagain < 0 ∧ eagain ≠ eof := by decide

theorem eof_code : eof < 0 ∧ eof ≠ eagain := by decide

theorem decodeData_code (side : Option (ℕ × ℕ)) (n : ℕ) (data : List UInt8) :
    (decodeData c side n data priv skip).2.1 < 0 ∧
      (decodeData c side n data priv skip).2.1 ≠ eof := by
  induction n generalizing data priv skip with
  | zero => exact eagain_code
  | succ n ih =>
    rw [decodeData]
    cases hdecode : (c.decode priv data).2 with
    | failed code => exact ⟨c.failed_neg _ _ _ hdecode, c.failed_ne_eof _ _ _ hdecode⟩
    | read ret frame =>
      dsimp only
      split_ifs with hread
      · exact eagain_code
      · exact ih _ _ _

theorem flush_code (n : ℕ) :
    (flush c n priv skip).2 < 0 ∧ (flush c n priv skip).2 ≠ eagain := by
  induction n generalizing priv skip with
  | zero => exact eof_code
  | succ n ih =>
    rw [flush]
    cases hdecode : (c.decode priv []).2 with
    | failed code => exact ⟨c.failed_neg _ _ _ hdecode, c.failed_ne_eagain _ _ _ hdecode⟩
    | read ret frame =>
      cases frame with
      | none => exact eof_code
      | some frame => exact ih _ _

/-- **A packet that is sent is read to its end**, however often the decoder has to be called, and
all frames are received, unless the decoder fails before there is one. -/
theorem feed_packet {pkt : AVPacket} (hdata : pkt.data ≠ []) {n fuel : ℕ}
    (hn : c.left priv pkt.data < n) (hfuel : n + 1 ≤ fuel) :
    feed c fuel (some pkt) (.rest priv skip) =
      if (decodeData c pkt.side n pkt.data priv skip).1 = [] ∧
          (decodeData c pkt.side n pkt.data priv skip).2.1 ≠ eagain then
        Flow.ret ((decodeData c pkt.side n pkt.data priv skip).2.1,
          .rest (decodeData c pkt.side n pkt.data priv skip).2.2.1
            (decodeData c pkt.side n pkt.data priv skip).2.2.2)
      else
        Flow.next ((decodeData c pkt.side n pkt.data priv skip).1,
          .rest (decodeData c pkt.side n pkt.data priv skip).2.2.1
            (decodeData c pkt.side n pkt.data priv skip).2.2.2) := by
  rcases yields_busy c priv skip pkt.side hdata hn with ⟨calls, hcalls, hyields⟩
  rcases decodeData_code c priv skip pkt.side n pkt.data with ⟨hneg, hne⟩
  generalize decodeData c pkt.side n pkt.data priv skip = r at hyields hneg hne ⊢
  have hmark : markEof (r.2.1, (AVCodecContext.rest r.2.2.1 r.2.2.2 : AVCodecContext σ β)) =
      (r.2.1, .rest r.2.2.1 r.2.2.2) := by
    simp [markEof, hne]
  have hsame : decodeSimpleInternal c
      { (AVCodecContext.rest priv skip : AVCodecContext σ β) with bsfPkt := some pkt } =
        decodeSimpleInternal c (.busy priv skip pkt.data pkt.side) := by
    rw [decodeSimpleInternal_busy c priv skip hdata]
    simp [decodeSimpleInternal, ffDecodeGetPacket, AVCodecContext.rest, AVCodecContext.busy, hdata]
  have hcollect := decodeAhead_collect rfl (hyields.congr hsame) (hcalls.trans hfuel) hneg
    (fun h => by
      rw [hmark]
      obtain heq : r.2.1 = eagain := h.resolve_right hne
      exact ⟨rfl, by rw [heq]; exact decodeSimpleInternal_rest c _ _⟩)
  rw [hmark] at hcollect
  have hsend : avcodecSendPacket c fuel (some pkt) (.rest priv skip) =
      decodeAhead c fuel
        { (AVCodecContext.rest priv skip : AVCodecContext σ β) with bsfPkt := some pkt } := by
    simp [avcodecSendPacket, AVCodecContext.rest, hdata]
  rw [feed, hsend, hcollect]
  simp only [hne, ne_eq, not_false_eq_true, and_true]

/-- **After the null packet what is held back is received.** -/
theorem feed_null (hdelay : c.capDelay = true) {n fuel : ℕ} (hn : c.left priv [] < n)
    (hfuel : n + 1 ≤ fuel) :
    ∃ s, feed c fuel none (.rest priv skip) =
      if (flush c n priv skip).1 = [] ∧ (flush c n priv skip).2 ≠ eof then
        Flow.ret ((flush c n priv skip).2, s)
      else Flow.next ((flush c n priv skip).1, s) := by
  rcases yields_drain c priv skip hdelay hn with ⟨calls, hcalls, s, hyields, hdone⟩
  rcases flush_code c priv skip n with ⟨hneg, hne⟩
  generalize flush c n priv skip = r at hyields hneg hne hdone ⊢
  have hsame : decodeSimpleInternal c
      { (AVCodecContext.rest priv skip : AVCodecContext σ β) with bsfEof := true } =
        decodeSimpleInternal c (.drain priv skip false 0) := by
    simp [decodeSimpleInternal, ffDecodeGetPacket, AVCodecContext.rest, AVCodecContext.drain]
  have hcollect := decodeAhead_collect rfl (hyields.congr hsame) (hcalls.trans hfuel) hneg
    (fun h => by
      obtain heq : r.2 = eof := h.resolve_left hne
      rcases hdone heq with ⟨priv', skip', rfl⟩
      have hmark : markEof (r.2, (AVCodecContext.drain priv' skip' true 0 : AVCodecContext σ β)) =
          (eof, .drain priv' skip' true 0) := by
        simp [markEof, heq, AVCodecContext.drain]
      rw [hmark]
      exact ⟨rfl, decodeSimpleInternal_done c _ _⟩)
  refine ⟨(markEof (r.2, s)).2, ?_⟩
  rw [feed]
  refine hcollect.trans ?_
  simp only [hne, ne_eq, not_false_eq_true, true_and]
  rfl

/-- A decoder without a delay is not called for the null packet. -/
theorem feed_null_noDelay (hdelay : c.capDelay = false) {n : ℕ} (hfuel : 1 ≤ n) :
    ∃ s, feed c n none (.rest priv skip) = Flow.next ([], s) := by
  have hcollect := decodeAhead_collect (c := c)
    (s := { (AVCodecContext.rest priv skip : AVCodecContext σ β) with bsfEof := true })
    (r := (eof, .drain priv skip false 0)) (l := []) rfl
    (.stop (by simp [decodeSimpleInternal, ffDecodeGetPacket, AVCodecContext.rest,
      AVCodecContext.drain, hdelay])) hfuel eof_code.1
    (fun _ => ⟨rfl, rfl⟩)
  exact ⟨_, hcollect⟩

end specs

/-! ## The stream -/

section stream
variable {σ β α : Type} (c : AVCodec σ β) (present : List β → Audio.AVFrame α)

/-- The calls, by a caller that receives until there is no frame. `present` says how samples lie
in a frame. -/
def AVCodec.layer : Audio.Decoder (AVCodecContext σ β) AVPacket α where
  send s pkt :=
    match feed c (c.left s.priv pkt.data + 2) (some pkt) s with
    | .next (frames, s) => (s, some (frames.map present))
    | .ret (_, s) => (s, none)
    | .hang => (s, none)
  drain s :=
    match feed c (c.left s.priv [] + 2) none s with
    | .next (frames, _) => frames.map present
    | .ret _ => []
    | .hang => []

/-- The calls for a packet come to an end. -/
def AVCodec.packetReturns (s : AVCodecContext σ β) (pkt : AVPacket) : Prop :=
  feed c (c.left s.priv pkt.data + 2) (some pkt) s ≠ Flow.hang

/-- The calls for the null packet come to an end. -/
def AVCodec.drainReturns (s : AVCodecContext σ β) : Prop :=
  feed c (c.left s.priv [] + 2) none s ≠ Flow.hang

/-- The function alone. -/
def AVCodec.alone : Audio.Decoder (σ × ℕ) AVPacket α where
  send s pkt :=
    if pkt.data = [] then (s, none)
    else
      let r := decodeData c pkt.side (c.left s.1 pkt.data + 1) pkt.data s.1 s.2
      (r.2.2, if r.1 = [] ∧ r.2.1 ≠ eagain then none else some (r.1.map present))
  drain s := if c.capDelay then (flush c (c.left s.1 [] + 1) s.1 s.2).1.map present else []

theorem layer_send (priv : σ) (skip : ℕ) (pkt : AVPacket) :
    (c.layer present).send (.rest priv skip) pkt =
      (.rest ((c.alone present).send (priv, skip) pkt).1.1
        ((c.alone present).send (priv, skip) pkt).1.2,
        ((c.alone present).send (priv, skip) pkt).2) := by
  simp only [AVCodec.layer, AVCodec.alone, AVCodecContext.rest_priv]
  by_cases hdata : pkt.data = []
  · have hfeed : feed c (c.left priv pkt.data + 2) (some pkt) (.rest priv skip) =
        Flow.ret (einval, .rest priv skip) := by
      simp [feed, avcodecSendPacket, AVCodecContext.rest, hdata]
    rw [if_pos hdata, hfeed]
  · rw [if_neg hdata, feed_packet c priv skip hdata (Nat.lt_succ_self _) le_rfl]
    split_ifs with hreject
    · rfl
    · rfl

theorem layer_drain (priv : σ) (skip : ℕ) :
    (c.layer present).drain (.rest priv skip) = (c.alone present).drain (priv, skip) := by
  simp only [AVCodec.layer, AVCodec.alone, AVCodecContext.rest_priv]
  cases hdelay : c.capDelay with
  | false =>
    rcases feed_null_noDelay c priv skip hdelay (n := c.left priv [] + 2) (by omega) with
      ⟨s, hfeed⟩
    rw [hfeed]
    rfl
  | true =>
    rcases feed_null c priv skip hdelay (Nat.lt_succ_self _) le_rfl with ⟨s, hfeed⟩
    rw [hfeed, if_pos rfl]
    split_ifs with hreject
    · simp [hreject.1]
    · rfl

/-- The context rests between two packets of the stream. -/
theorem decode_rest (s : σ × ℕ) (packets : List (Audio.Demuxed AVPacket)) :
    (c.layer present).decode (.rest s.1 s.2) packets =
      (((c.alone present).decode s packets).1,
        .rest ((c.alone present).decode s packets).2.1
          ((c.alone present).decode s packets).2.2) := by
  induction packets generalizing s with
  | nil => rfl
  | cons packet packets ih =>
    have hevent : (c.layer present).event (.rest s.1 s.2) packet =
        (.rest ((c.alone present).event s packet).1.1 ((c.alone present).event s packet).1.2,
          ((c.alone present).event s packet).2) := by
      cases packet with
      | other => rfl
      | selected pkt =>
        simp only [Audio.Decoder.event, layer_send]
        rcases (c.alone present).send s pkt with ⟨s', _ | frames⟩
        · rfl
        · rfl
    simp only [Audio.Decoder.decode, hevent, ih]

/-- The frames of the whole stream. -/
theorem output_rest (s : σ × ℕ) (packets : List (Audio.Demuxed AVPacket)) :
    (c.layer present).output (.rest s.1 s.2) packets = (c.alone present).output s packets := by
  rw [Audio.Decoder.output, Audio.Decoder.held, decode_rest, layer_drain]
  rfl

/-- The fuel is enough for a packet, and for what is held back. -/
theorem feed_ne_hang (priv : σ) (skip : ℕ) :
    (∀ pkt : AVPacket,
      feed c (c.left priv pkt.data + 2) (some pkt) (.rest priv skip) ≠ Flow.hang) ∧
      feed c (c.left priv [] + 2) none (.rest priv skip) ≠ Flow.hang := by
  refine ⟨fun pkt => ?packet, ?null⟩
  case packet =>
    by_cases hdata : pkt.data = []
    · simp [feed, avcodecSendPacket, AVCodecContext.rest, hdata]
    · rw [feed_packet c priv skip hdata (Nat.lt_succ_self _) le_rfl]
      split_ifs <;> simp
  case null =>
    cases hdelay : c.capDelay with
    | false =>
      rcases feed_null_noDelay c priv skip hdelay (n := c.left priv [] + 2) (by omega) with
        ⟨s, hfeed⟩
      rw [hfeed]
      exact Flow.next_ne_hang _
    | true =>
      rcases feed_null c priv skip hdelay (Nat.lt_succ_self _) le_rfl with ⟨s, hfeed⟩
      rw [hfeed]
      split_ifs <;> simp

/-- **A caller that receives after every packet sees the function alone**, and every call
returns. -/
theorem decode_layer (priv : σ) (skip : ℕ) (packets : List (Audio.Demuxed AVPacket)) :
    ((c.layer present).decode (.rest priv skip) packets).1 =
        ((c.alone present).decode (priv, skip) packets).1 ∧
      (c.layer present).held (.rest priv skip) packets =
        (c.alone present).held (priv, skip) packets ∧
      (∀ before pkt after, packets = before ++ .selected pkt :: after →
        c.packetReturns ((c.layer present).decode (.rest priv skip) before).2 pkt) ∧
      c.drainReturns ((c.layer present).decode (.rest priv skip) packets).2 := by
  have hdecode := decode_rest c present (priv, skip)
  refine ⟨?frames, ?held, ?packet, ?drain⟩
  case frames => rw [hdecode]
  case held =>
    rw [Audio.Decoder.held, hdecode, layer_drain]
    rfl
  case packet =>
    intro before pkt after _
    rw [hdecode]
    exact (feed_ne_hang c _ _).1 pkt
  case drain =>
    rw [hdecode]
    exact (feed_ne_hang c _ _).2

end stream

/-! ## The samples to skip -/

section skip
variable {σ β α : Type} {c : AVCodec σ β}

/-- The decoder does not fail, and marks no frame to be discarded. -/
structure AVCodec.Plain (c : AVCodec σ β) : Prop where
  reads : ∀ s data code, (c.decode s data).2 ≠ .failed code
  keeps : ∀ s data n frame, (c.decode s data).2 = .read n (some frame) → frame.discard = false

/-- The samples of a frame, if there is one. -/
def samplesOf (frame : Option (Frame β)) : List β := frame.elim [] Frame.samples

/-- What is left to skip goes on at the next frame. -/
theorem trim_plain (multiplier skip : ℕ) {frame : Option (Frame β)}
    (hkeep : ∀ f ∈ frame, f.discard = false) :
    (trim multiplier none skip frame).1.toList.flatten = (samplesOf frame).drop skip ∧
      (trim multiplier none skip frame).2 = skip - (samplesOf frame).length := by
  cases frame with
  | none => simp [trim, samplesOf, skipOf]
  | some frame =>
    simp only [trim, hkeep frame rfl, Bool.false_eq_true, if_false, skipOf, Option.elim_none,
      samplesOf, Option.elim_some]
    rw [skipFront]
    split_ifs with hpos hle
    · rw [List.drop_eq_nil_of_le hle]
      exact ⟨rfl, rfl⟩
    · rw [Option.bind_some, discardBack_zero]
      refine ⟨by simp, ?_⟩
      dsimp only
      omega
    · obtain rfl : skip = 0 := by omega
      rw [Option.bind_some, discardBack_zero]
      refine ⟨by simp, ?_⟩
      dsimp only
      omega

theorem AVCodec.Plain.trim_read (hplain : c.Plain) {s : σ} {data : List UInt8} {n : ℕ}
    {frame : Option (Frame β)} (hdecode : (c.decode s data).2 = .read n frame)
    (multiplier skip : ℕ) :
    (trim multiplier none skip frame).1.toList.flatten = (samplesOf frame).drop skip ∧
      (trim multiplier none skip frame).2 = skip - (samplesOf frame).length := by
  refine trim_plain multiplier skip fun f hf => ?_
  obtain rfl := hf
  exact hplain.keeps _ _ _ _ hdecode

/-- With less to skip there is more, and nothing else is different. -/
theorem decodeData_skip (hplain : c.Plain) (n : ℕ) (data : List UInt8) (priv : σ) (skip : ℕ) :
    (decodeData c none n data priv skip).1.flatten =
        (decodeData c none n data priv 0).1.flatten.drop skip ∧
      (decodeData c none n data priv skip).2 =
        (eagain, (decodeData c none n data priv 0).2.2.1,
          skip - (decodeData c none n data priv 0).1.flatten.length) := by
  induction n generalizing data priv skip with
  | zero => simp [decodeData]
  | succ n ih =>
    simp only [decodeData]
    cases hdecode : (c.decode priv data).2 with
    | failed code => exact absurd hdecode (hplain.reads _ _ _)
    | read ret frame =>
      have htrim := hplain.trim_read hdecode (c.skipMultiplier (c.decode priv data).1) skip
      have htrim' := hplain.trim_read hdecode (c.skipMultiplier (c.decode priv data).1) 0
      rw [List.drop_zero, Nat.zero_sub] at htrim'
      dsimp only
      by_cases hread : data.length ≤ ret
      · simp [hread, htrim.1, htrim.2, htrim'.1]
      · simp only [hread, if_false, List.flatten_append, htrim.1, htrim.2, htrim'.1, htrim'.2,
          List.drop_append, List.length_append]
        rcases ih (data.drop ret) (c.decode priv data).1 (skip - (samplesOf frame).length) with
          ⟨hframes, hrest⟩
        rw [hframes, hrest, Nat.sub_sub]
        exact ⟨rfl, rfl⟩

theorem flush_skip (hplain : c.Plain) (n : ℕ) (priv : σ) (skip : ℕ) :
    (flush c n priv skip).1.flatten = (flush c n priv 0).1.flatten.drop skip := by
  induction n generalizing priv skip with
  | zero => simp [flush]
  | succ n ih =>
    simp only [flush]
    cases hdecode : (c.decode priv []).2 with
    | failed code => exact absurd hdecode (hplain.reads _ _ _)
    | read ret frame =>
      cases frame with
      | none => simp
      | some frame =>
        have htrim := hplain.trim_read hdecode (c.skipMultiplier (c.decode priv []).1) skip
        have htrim' := hplain.trim_read hdecode (c.skipMultiplier (c.decode priv []).1) 0
        rw [List.drop_zero, Nat.zero_sub] at htrim'
        dsimp only
        rw [List.flatten_append, List.flatten_append, htrim.1, htrim.2, htrim'.1, htrim'.2,
          List.drop_append, ih]

section stream
variable {present : List β → Audio.AVFrame α} {read : Audio.AVFrame α → List β}

theorem flatMap_present (hread : ∀ l, read (present l) = l) (frames : List (List β)) :
    (frames.map present).flatMap read = frames.flatten := by
  have hcomp : read ∘ present = id := funext hread
  rw [List.flatMap_def, List.map_map, hcomp, List.map_id]

/-- A packet without data is refused, and any other is read to its end. -/
theorem event_plain (hplain : c.Plain) (s : σ × ℕ) {pkt : AVPacket} (hside : pkt.side = none) :
    (c.alone present).event s (.selected pkt) =
      if pkt.data = [] then (s, .rejected)
      else ((decodeData c none (c.left s.1 pkt.data + 1) pkt.data s.1 s.2).2.2,
        .accepted ((decodeData c none (c.left s.1 pkt.data + 1) pkt.data s.1 s.2).1.map
          present)) := by
  simp only [Audio.Decoder.event, AVCodec.alone, hside]
  split_ifs with hdata hreject
  · rfl
  · rw [(decodeData_skip hplain _ _ _ _).2] at hreject
    exact absurd rfl hreject.2
  · rfl

/-- The samples of the frames that a packet gives, and what is left to skip. -/
theorem event_skip (hplain : c.Plain) (hread : ∀ l, read (present l) = l) (priv : σ) (skip : ℕ)
    (packet : Audio.Demuxed AVPacket) (hside : ∀ pkt, packet = .selected pkt → pkt.side = none) :
    ((c.alone present).event (priv, skip) packet).2.frames.flatMap read =
        (((c.alone present).event (priv, 0) packet).2.frames.flatMap read).drop skip ∧
      ((c.alone present).event (priv, skip) packet).1 =
        (((c.alone present).event (priv, 0) packet).1.1,
          skip - (((c.alone present).event (priv, 0) packet).2.frames.flatMap read).length) := by
  cases packet with
  | other => simp [Audio.Decoder.event, Audio.Event.frames]
  | selected pkt =>
    rw [event_plain hplain _ (hside pkt rfl), event_plain hplain _ (hside pkt rfl)]
    by_cases hdata : pkt.data = []
    · simp [hdata, Audio.Event.frames]
    · simp only [hdata, if_false, Audio.Event.frames, flatMap_present hread]
      rcases decodeData_skip hplain (c.left priv pkt.data + 1) pkt.data priv skip with
        ⟨hframes, hrest⟩
      rw [hframes, hrest]
      exact ⟨rfl, rfl⟩

theorem output_nil (d : Audio.Decoder (σ × ℕ) AVPacket α) (s : σ × ℕ) :
    d.output s [] = d.drain s := rfl

theorem output_cons (d : Audio.Decoder (σ × ℕ) AVPacket α) (s : σ × ℕ)
    (packet : Audio.Demuxed AVPacket) (packets : List (Audio.Demuxed AVPacket)) :
    d.output s (packet :: packets) =
      (d.event s packet).2.frames ++ d.output (d.event s packet).1 packets := by
  simp [Audio.Decoder.output, Audio.Decoder.held, Audio.Decoder.decode, Audio.allFrames]

/-- **The samples to skip are cut off the front of the stream**, also where they end in the
middle of a frame, or only after some packets. -/
theorem output_skip (hplain : c.Plain) (hread : ∀ l, read (present l) = l) (priv : σ) (skip : ℕ)
    {packets : List (Audio.Demuxed AVPacket)}
    (hside : ∀ pkt, .selected pkt ∈ packets → pkt.side = none) :
    ((c.layer present).output (.rest priv skip) packets).flatMap read =
      (((c.layer present).output (.rest priv 0) packets).flatMap read).drop skip := by
  rw [output_rest c present (priv, skip), output_rest c present (priv, 0)]
  induction packets generalizing priv skip with
  | nil =>
    simp only [output_nil, AVCodec.alone]
    split_ifs with hdelay
    · rw [flatMap_present hread, flatMap_present hread, flush_skip hplain]
    · simp
  | cons packet packets ih =>
    have hpacket := event_skip hplain hread priv skip packet
      (fun pkt h => hside pkt (h ▸ List.mem_cons_self))
    have hpacket' := event_skip hplain hread priv 0 packet
      (fun pkt h => hside pkt (h ▸ List.mem_cons_self))
    rw [Nat.zero_sub] at hpacket'
    have hih := fun priv skip => ih priv skip fun pkt h => hside pkt (List.mem_cons_of_mem _ h)
    rw [output_cons, output_cons, List.flatMap_append, List.flatMap_append, List.drop_append,
      hpacket.1, hpacket.2, hpacket'.2, hih]

end stream
end skip

/-- A decoder that reads two bytes at a call, which are two samples. -/
def pairs : AVCodec Unit UInt8 where
  capDelay := false
  skipMultiplier _ := 1
  decode _ data := ((), .read 2 (if data = [] then none else some ⟨data.take 2, false⟩))
  failed_neg _ _ _ h := nomatch h
  failed_ne_eagain _ _ _ h := nomatch h
  failed_ne_eof _ _ _ h := nomatch h
  left _ data := data.length
  left_read _ data n _ h hlt := by
    cases h
    rw [List.length_drop]
    omega
  left_flush _ _ _ h := nomatch h

theorem pairs_plain : pairs.Plain where
  reads s data code h := by simp [pairs] at h
  keeps s data n frame h := by
    simp only [pairs, Decoded.read.injEq] at h
    split_ifs at h with hdata
    · exact absurd h.2 (by simp)
    · rw [← Option.some.inj h.2]

/-- Samples in one plane. -/
def inPlane (samples : List UInt8) : Audio.AVFrame UInt8 :=
  ⟨samples.length, fun _ => 0, fun i => samples.getD i.toNat 0⟩

theorem read_inPlane (samples : List UInt8) :
    (inPlane samples).read 1 (inPlane samples).nbSamples 0 = samples := by
  refine List.ext_getElem (by simp [inPlane]) fun i hi hi' => ?_
  simp [Audio.AVFrame.read, inPlane, hi']

/-- Three samples are skipped: the first frame, and one sample of the second. -/
theorem output_skip_three :
    ((pairs.layer inPlane).output (.rest () 3)
        [.selected ⟨[1, 2, 3, 4], none⟩, .other, .selected ⟨[5, 6, 7], none⟩]).flatMap
        (fun f => f.read 1 f.nbSamples 0) = [4, 5, 6, 7] :=
  (output_skip pairs_plain read_inPlane () 3 (by simp)).trans (by decide)

end AudioCrash.Decode
