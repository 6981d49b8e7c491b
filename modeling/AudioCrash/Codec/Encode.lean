import AudioCrash.Lib.Script

/-!
# Sending frames to an encoder

An encoder of FFmpeg is a function: it takes a frame, or none when it is to give what it holds
back, and gives a packet or none. `avcodec_send_frame` and `avcodec_receive_packet` stand between
the caller and this function. A frame and a packet may wait there, and after the null frame the
function is called until it gives nothing more.

A caller that receives after every frame until there is nothing to receive, as `run` does, sees
nothing of what waits: the function is given each frame once, in order, and the packets are those
it gives.

## Main definitions

* `AVCodec`, `AVCodecContext` — the function, and what waits.
* `avcodecSendFrame`, `avcodecReceivePacket` — the calls.
* `session` — the calls of `run`.
* `encodeAll` — the function alone.
* `session_related` — the two agree.
* `compatEncode`, `compatEncode_rest` — one frame and one packet at a time.
-/

namespace AudioCrash.Encode

/-! ## The model -/

/-- `AVERROR(EAGAIN)`. -/
def eagain : ℤ := -11

/-- `AVERROR(EINVAL)`. -/
def einval : ℤ := -22

/-- `AVERROR_EOF`. -/
def eof : ℤ := -541478725

/-- `AVERROR_BUG`. -/
def bug : ℤ := -558323010

/-- What `encode2` has done. There is a packet when `got_packet` is set. -/
structure Encoded (π : Type) where
  ret : ℤ
  avpkt : Option π

/-- An encoder, for an `AVCodecContext` that has been opened. -/
structure AVCodec (σ φ π : Type) where
  audio : Bool
  capDelay : Bool
  capSmallLastFrame : Bool
  capVariableFrameSize : Bool
  frameSize : ℕ
  nbSamples : φ → ℕ
  /-- `pad_last_frame`. -/
  padLastFrame : φ → φ
  encode2 : σ → Option φ → σ × Encoded π
  /-- The time stamps and flags that a packet for a frame is given. -/
  stamp : Option φ → π → π
  ret_nonpos : ∀ s f, (encode2 s f).2.ret ≤ 0
  ret_ne_eagain : ∀ s f, (encode2 s f).2.ret ≠ eagain
  ret_ne_eof : ∀ s f, (encode2 s f).2.ret ≠ eof
  /-- How many packets are held back, at most. -/
  left : σ → ℕ
  left_lt : ∀ s, (encode2 s none).2.avpkt ≠ none → left (encode2 s none).1 < left s

/-- `AVCodecContext` with its `AVCodecInternal`. -/
structure AVCodecContext (σ φ π : Type) where
  priv : σ
  lastAudioFrame : Bool
  draining : Bool
  drainingDone : Bool
  bufferFrame : Option φ
  /-- `es.in_frame`. -/
  inFrame : Option φ
  bufferPkt : Option π

section calls
variable {σ φ π : Type}

/-- A function returns 0, with a packet, or a negative code. -/
abbrev Answer (σ φ π : Type) :=
  Flow (ℤ × AVCodecContext σ φ π) (Option π × AVCodecContext σ φ π)

/-- `ff_encode_get_frame(avctx, es->in_frame)`. -/
def ffEncodeGetFrame (s : AVCodecContext σ φ π) : ℤ × AVCodecContext σ φ π :=
  if s.draining then (eof, s)
  else
    match s.bufferFrame with
    | none => (eagain, s)
    | some frame => (0, { s with inFrame := some frame, bufferFrame := none })

variable (c : AVCodec σ φ π)

/-- `encode_simple_internal`, from the call of `encode2` on. -/
def encodeInFrame (s : AVCodecContext σ φ π) : Answer σ φ π :=
  let e := c.encode2 s.priv s.inFrame
  let s' := { s with
    priv := e.1
    inFrame := none
    drainingDone := s.draining && e.2.avpkt.isNone }
  if e.2.ret < 0 then Flow.ret (e.2.ret, s')
  else Flow.next (e.2.avpkt.map (c.stamp s.inFrame), s')

/-- `encode_simple_internal`. -/
def encodeSimpleInternal (s : AVCodecContext σ φ π) : Answer σ φ π :=
  if s.drainingDone then Flow.ret (eof, s)
  else
    let get := if s.inFrame.isNone && !s.draining then ffEncodeGetFrame s else (0, s)
    if get.1 < 0 && get.1 ≠ eof then Flow.ret get
    else if get.2.inFrame.isNone && !c.capDelay then Flow.ret (eof, get.2)
    else encodeInFrame c get.2

/-- `encode_simple_receive_packet`. A call of `encode2` without a packet takes the frame, or ends
the draining, so that there is no third iteration. -/
def encodeSimpleReceivePacket (s : AVCodecContext σ φ π) : Answer σ φ π :=
  Flow.whileLoop (fun p => p.1.isNone) (fun p => encodeSimpleInternal c p.2) 2 (none, s)

/-- `encode_receive_packet_internal`. -/
def encodeReceivePacketInternal (s : AVCodecContext σ φ π) : Answer σ φ π :=
  if s.drainingDone then Flow.ret (eof, s)
  else
    match encodeSimpleReceivePacket c s with
    | .ret (code, s) =>
      Flow.ret (code, if code = eof then { s with drainingDone := true } else s)
    | answer => answer

/-- `encode_send_frame_internal`: the frame that is stored, and whether it must be the last. -/
def validFrame (lastAudioFrame : Bool) (src : φ) : Option (φ × Bool) :=
  if !c.audio then some (src, lastAudioFrame)
  else if c.capSmallLastFrame then
    if c.frameSize < c.nbSamples src then none else some (src, lastAudioFrame)
  else if c.capVariableFrameSize then some (src, lastAudioFrame)
  else if lastAudioFrame then none
  else if c.nbSamples src < c.frameSize then some (c.padLastFrame src, true)
  else if c.frameSize < c.nbSamples src then none
  else some (src, lastAudioFrame)

/-- `avcodec_send_frame` from the call of `encode_receive_packet_internal` on. -/
def encodeAhead (s : AVCodecContext σ φ π) :
    Flow (ℤ × AVCodecContext σ φ π) (AVCodecContext σ φ π) :=
  match s.bufferPkt with
  | some _ => Flow.next s
  | none =>
    match encodeReceivePacketInternal c s with
    | .next (pkt, s) => Flow.next { s with bufferPkt := pkt }
    | .ret (code, s) =>
      if code < 0 && code ≠ eagain && code ≠ eof then Flow.ret (code, s) else Flow.next s
    | .hang => Flow.hang

/-- `avcodec_send_frame`. -/
def avcodecSendFrame (frame : Option φ) (s : AVCodecContext σ φ π) :
    Flow (ℤ × AVCodecContext σ φ π) (AVCodecContext σ φ π) :=
  if s.draining then Flow.ret (eof, s)
  else if s.bufferFrame.isSome then Flow.ret (eagain, s)
  else
    match frame with
    | none => encodeAhead c { s with draining := true }
    | some src =>
      match validFrame c s.lastAudioFrame src with
      | none => Flow.ret (einval, s)
      | some (dst, last) =>
        encodeAhead c { s with bufferFrame := some dst, lastAudioFrame := last }

/-- `avcodec_receive_packet`. -/
def avcodecReceivePacket (s : AVCodecContext σ φ π) : Answer σ φ π :=
  match s.bufferPkt with
  | some pkt => Flow.next (some pkt, { s with bufferPkt := none })
  | none => encodeReceivePacketInternal c s

/-! ## The calls of a program -/

/-- `while (avcodec_receive_packet(ctx, &pkt) == 0)`: the packets, if the fuel is enough. -/
def receivePackets {R : Type} : ℕ → AVCodecContext σ φ π → Flow R (List π × AVCodecContext σ φ π)
  | 0, _ => Flow.hang
  | fuel + 1, s =>
    match avcodecReceivePacket c s with
    | .next (pkt, s) =>
      (receivePackets fuel s).bind fun rest => Flow.next (pkt.toList ++ rest.1, rest.2)
    | .ret (_, s) => Flow.next ([], s)
    | .hang => Flow.hang

/-- `avcodec_send_frame`, and the loop over the packets after it. The packets that have been
received before are kept. -/
def feed (frame : Option φ) (p : List π × AVCodecContext σ φ π) :
    Flow (ℤ × List π × AVCodecContext σ φ π) (List π × AVCodecContext σ φ π) :=
  match avcodecSendFrame c frame p.2 with
  | .ret (code, s) => Flow.ret (code, p.1, s)
  | .hang => Flow.hang
  | .next s =>
    (receivePackets c (c.left s.priv + 2) s).bind fun got => Flow.next (p.1 ++ got.1, got.2)

/-- A context that has just been opened, or waits for a frame. -/
def AVCodecContext.rest (priv : σ) (lastAudioFrame : Bool) : AVCodecContext σ φ π :=
  ⟨priv, lastAudioFrame, false, false, none, none, none⟩

/-- The frames one after the other, and the null frame. -/
def session (frames : List φ) (priv : σ) :
    Flow (ℤ × List π × AVCodecContext σ φ π) (List π × AVCodecContext σ φ π) :=
  (Flow.forEach (fun frame => feed c (some frame)) frames ([], .rest priv false)).bind
    (feed c none)

/-! ## The function alone -/

/-- A frame is encoded. -/
def encodeFrame (frame : φ) (p : List π × σ × Bool) :
    Flow (ℤ × List π × σ) (List π × σ × Bool) :=
  match validFrame c p.2.2 frame with
  | none => Flow.ret (einval, p.1, p.2.1)
  | some (frame, last) =>
    let e := c.encode2 p.2.1 (some frame)
    if e.2.ret < 0 then Flow.ret (e.2.ret, p.1, e.1)
    else Flow.next (p.1 ++ (e.2.avpkt.map (c.stamp (some frame))).toList, e.1, last)

/-- What is held back comes out, until there is no packet. -/
def flush : ℕ → σ → ℤ × List π × σ
  | 0, s => (0, [], s)
  | n + 1, s =>
    let e := c.encode2 s none
    if e.2.ret < 0 then (e.2.ret, [], e.1)
    else
      match e.2.avpkt with
      | none => (0, [], e.1)
      | some pkt =>
        let rest := flush n e.1
        (rest.1, c.stamp none pkt :: rest.2.1, rest.2.2)

/-- The end of the frames. An error is only seen before the first packet. -/
def encodeNull (p : List π × σ × Bool) : Flow (ℤ × List π × σ) (List π × σ) :=
  if !c.capDelay then Flow.next (p.1, p.2.1)
  else
    let f := flush c (c.left p.2.1 + 1) p.2.1
    if f.1 < 0 && f.2.1.isEmpty then Flow.ret (f.1, p.1, f.2.2)
    else Flow.next (p.1 ++ f.2.1, f.2.2)

/-- The frames are encoded one after the other, and then what is held back. -/
def encodeAll (frames : List φ) (priv : σ) : Flow (ℤ × List π × σ) (List π × σ) :=
  (Flow.forEach (encodeFrame c) frames ([], priv, false)).bind (encodeNull c)

/-! ## One frame, one packet -/

/-- The loop of `compat_encode` over the packets: the first is kept, if it fits into the memory
of the caller's packet, and the others are dropped. -/
def compatReceive {R : Type} (size : π → ℕ) (room : Option ℕ) :
    ℕ → Option π → AVCodecContext σ φ π → Flow R (ℤ × Option π × AVCodecContext σ φ π)
  | 0, _, _ => Flow.hang
  | fuel + 1, got, s =>
    match avcodecReceivePacket c s with
    | .ret (code, s) => Flow.next (if code = eagain || code = eof then 0 else code, got, s)
    | .next (pkt, s) =>
      if got.isNone && (room.any fun n => pkt.any fun pkt => n < size pkt) then
        Flow.next (einval, none, s)
      else
        let got := got <|> pkt
        if s.draining then Flow.next (0, got, s) else compatReceive size room fuel got s
    | .hang => Flow.hang

/-- `compat_encode`, which `avcodec_encode_video2` calls: the code, and the packet when
`*got_packet` is set. -/
def compatEncode {R : Type} (size : π → ℕ) (room : Option ℕ) (frame : Option φ)
    (s : AVCodecContext σ φ π) : Flow R (ℤ × Option π × AVCodecContext σ φ π) :=
  match avcodecSendFrame c frame s with
  | .hang => Flow.hang
  | .ret (code, s) =>
    if code = eof then compatReceive c size room (c.left s.priv + 2) none s
    else Flow.next (if code = eagain then bug else code, none, s)
  | .next s => compatReceive c size room (c.left s.priv + 2) none s

end calls

/-! ## The single calls -/

section specs
variable {σ φ π : Type} (c : AVCodec σ φ π) (priv : σ) (last : Bool)

/-- A context after the null frame. -/
def AVCodecContext.drain (drainingDone : Bool) : AVCodecContext σ φ π :=
  ⟨priv, last, true, drainingDone, none, none, none⟩

@[simp] theorem AVCodecContext.drain_priv (done : Bool) :
    (AVCodecContext.drain priv last done : AVCodecContext σ φ π).priv = priv := rfl

/-- The frame that waits is encoded. -/
theorem encodeReceivePacketInternal_frame (frame : φ) :
    encodeReceivePacketInternal c { AVCodecContext.rest priv last with bufferFrame := some frame } =
      if (c.encode2 priv (some frame)).2.ret < 0 then
        Flow.ret ((c.encode2 priv (some frame)).2.ret,
          .rest (c.encode2 priv (some frame)).1 last)
      else
        match (c.encode2 priv (some frame)).2.avpkt with
        | none => Flow.ret (eagain, .rest (c.encode2 priv (some frame)).1 last)
        | some pkt => Flow.next (some (c.stamp (some frame) pkt),
            .rest (c.encode2 priv (some frame)).1 last) := by
  have heof := c.ret_ne_eof priv (some frame)
  by_cases hret : (c.encode2 priv (some frame)).2.ret < 0
  · simp [encodeReceivePacketInternal, encodeSimpleReceivePacket, Flow.whileLoop,
      encodeSimpleInternal, ffEncodeGetFrame, encodeInFrame, AVCodecContext.rest, hret, heof]
  · cases hpkt : (c.encode2 priv (some frame)).2.avpkt <;>
      simp [encodeReceivePacketInternal, encodeSimpleReceivePacket, Flow.whileLoop,
        encodeSimpleInternal, ffEncodeGetFrame, encodeInFrame, AVCodecContext.rest, hret, hpkt,
        eagain, eof]

/-- After the null frame an encoder without a delay is not called. -/
theorem encodeReceivePacketInternal_noDelay (h : c.capDelay = false) :
    encodeReceivePacketInternal c (.drain priv last false) =
      Flow.ret (eof, .drain priv last true) := by
  simp [encodeReceivePacketInternal, encodeSimpleReceivePacket, Flow.whileLoop,
    encodeSimpleInternal, AVCodecContext.drain, h]

theorem encodeReceivePacketInternal_delay (h : c.capDelay = true) :
    encodeReceivePacketInternal c (.drain priv last false) =
      if (c.encode2 priv none).2.ret < 0 then
        Flow.ret ((c.encode2 priv none).2.ret,
          .drain (c.encode2 priv none).1 last (c.encode2 priv none).2.avpkt.isNone)
      else
        match (c.encode2 priv none).2.avpkt with
        | none => Flow.ret (eof, .drain (c.encode2 priv none).1 last true)
        | some pkt => Flow.next (some (c.stamp none pkt),
            .drain (c.encode2 priv none).1 last false) := by
  have heof := c.ret_ne_eof priv none
  by_cases hret : (c.encode2 priv none).2.ret < 0
  · simp [encodeReceivePacketInternal, encodeSimpleReceivePacket, Flow.whileLoop,
      encodeSimpleInternal, encodeInFrame, AVCodecContext.drain, h, hret, heof]
  · cases hpkt : (c.encode2 priv none).2.avpkt <;>
      simp [encodeReceivePacketInternal, encodeSimpleReceivePacket, Flow.whileLoop,
        encodeSimpleInternal, encodeInFrame, AVCodecContext.drain, h, hret, hpkt]

/-! ## The loop over the packets -/

variable {R : Type}

/-- The packet that waits is received first. -/
theorem avcodecReceivePacket_ready {pkt : π} {s : AVCodecContext σ φ π}
    (h : s.bufferPkt = none) :
    avcodecReceivePacket c { s with bufferPkt := some pkt } = Flow.next (some pkt, s) := by
  rcases s with ⟨_, _, _, _, _, _, _⟩
  obtain rfl := h
  rfl

theorem receivePackets_ready (n : ℕ) (pkt : π) {s : AVCodecContext σ φ π}
    (h : s.bufferPkt = none) :
    receivePackets (R := R) c (n + 1) { s with bufferPkt := some pkt } =
      (receivePackets c n s).bind fun rest => Flow.next (pkt :: rest.1, rest.2) := by
  rw [receivePackets, avcodecReceivePacket_ready c h]
  rfl

/-- What is held back is received. -/
theorem receivePackets_drain (h : c.capDelay = true) {n m : ℕ} (hn : c.left priv < n)
    (hm : c.left priv < m) :
    ∃ done, receivePackets (R := R) c n (.drain priv last false) =
      Flow.next ((flush c m priv).2.1, .drain (flush c m priv).2.2 last done) := by
  induction n generalizing priv m with
  | zero => exact absurd hn (Nat.not_lt_zero _)
  | succ n ih =>
    cases m with
    | zero => exact absurd hm (Nat.not_lt_zero _)
    | succ m =>
      have hreceive : avcodecReceivePacket c (.drain priv last false) = _ :=
        encodeReceivePacketInternal_delay c priv last h
      rw [receivePackets, hreceive, flush]
      by_cases hret : (c.encode2 priv none).2.ret < 0
      · rw [if_pos hret, if_pos hret]
        exact ⟨_, rfl⟩
      · rw [if_neg hret, if_neg hret]
        cases hpkt : (c.encode2 priv none).2.avpkt with
        | none => exact ⟨true, rfl⟩
        | some pkt =>
          have hleft := c.left_lt priv (by rw [hpkt]; exact Option.some_ne_none pkt)
          rcases ih (c.encode2 priv none).1 (by omega) (m := m) (by omega) with ⟨done, hrest⟩
          refine ⟨done, ?_⟩
          dsimp only
          rw [hrest, Flow.bind_next]
          rfl

/-! ## The loop over the frames -/

/-- The codec is in the same state, and the packets are the same. -/
structure Idle (p : List π × AVCodecContext σ φ π) (q : List π × σ × Bool) : Prop where
  packets : p.1 = q.1
  context : p.2 = .rest q.2.1 q.2.2

/-- And the code. -/
structure Stops (r : ℤ × List π × AVCodecContext σ φ π) (r' : ℤ × List π × σ) : Prop where
  code : r.1 = r'.1
  packets : r.2.1 = r'.2.1
  priv : r.2.2.priv = r'.2.2

/-- The null frame has been sent, and nothing is left to receive. -/
structure Drained (p : List π × AVCodecContext σ φ π) (q : List π × σ) : Prop where
  packets : p.1 = q.1
  priv : p.2.priv = q.2
  draining : p.2.draining = true

theorem encodeAhead_frame (frame : φ) :
    encodeAhead c { AVCodecContext.rest priv last with bufferFrame := some frame } =
      if (c.encode2 priv (some frame)).2.ret < 0 then
        Flow.ret ((c.encode2 priv (some frame)).2.ret,
          .rest (c.encode2 priv (some frame)).1 last)
      else Flow.next
        { (AVCodecContext.rest (c.encode2 priv (some frame)).1 last : AVCodecContext σ φ π) with
          bufferPkt := (c.encode2 priv (some frame)).2.avpkt.map (c.stamp (some frame)) } := by
  have hinternal := encodeReceivePacketInternal_frame c priv last frame
  rw [encodeAhead]
  dsimp only [AVCodecContext.rest] at hinternal ⊢
  rw [hinternal]
  by_cases hret : (c.encode2 priv (some frame)).2.ret < 0
  · simp [hret, c.ret_ne_eof, c.ret_ne_eagain]
  · cases hpkt : (c.encode2 priv (some frame)).2.avpkt <;> simp [hret, eagain]

/-- A frame that is accepted is stored, and encoded at once. -/
theorem avcodecSendFrame_rest {frame frame' : φ} {last' : Bool}
    (hvalid : validFrame c last frame = some (frame', last')) :
    avcodecSendFrame c (some frame) (.rest priv last) =
      encodeAhead c { AVCodecContext.rest priv last' with bufferFrame := some frame' } := by
  simp [avcodecSendFrame, AVCodecContext.rest, hvalid]

theorem feed_related (frame : φ) {p : List π × AVCodecContext σ φ π} {q : List π × σ × Bool}
    (h : Idle p q) :
    Flow.Related Idle Stops (feed c (some frame) p) (encodeFrame c frame q) := by
  rcases p with ⟨pkts, s⟩
  rcases q with ⟨pkts', priv, last⟩
  obtain rfl : pkts = pkts' := h.packets
  obtain rfl : s = .rest priv last := h.context
  cases hvalid : validFrame c last frame with
  | none =>
    have hsend : avcodecSendFrame c (some frame) (.rest priv last) =
        Flow.ret (einval, .rest priv last) := by
      simp [avcodecSendFrame, AVCodecContext.rest, hvalid]
    rw [feed, hsend, encodeFrame, hvalid]
    exact ⟨rfl, rfl, rfl⟩
  | some stored =>
    rcases stored with ⟨frame', last'⟩
    rw [feed, avcodecSendFrame_rest c priv last hvalid, encodeAhead_frame, encodeFrame, hvalid]
    by_cases hret : (c.encode2 priv (some frame')).2.ret < 0
    · rw [if_pos hret]
      dsimp only
      rw [if_pos hret]
      exact ⟨rfl, rfl, rfl⟩
    · rw [if_neg hret]
      dsimp only
      rw [if_neg hret]
      cases (c.encode2 priv (some frame')).2.avpkt with
      | none => exact ⟨rfl, rfl⟩
      | some pkt => exact ⟨rfl, rfl⟩

/-- What `avcodec_send_frame` does with the null frame, where the encoder has a delay. -/
theorem encodeAhead_null (h : c.capDelay = true) :
    encodeAhead c (.drain priv last false) =
      if (c.encode2 priv none).2.ret < 0 then
        Flow.ret ((c.encode2 priv none).2.ret,
          .drain (c.encode2 priv none).1 last (c.encode2 priv none).2.avpkt.isNone)
      else Flow.next { (AVCodecContext.drain (c.encode2 priv none).1 last
          (c.encode2 priv none).2.avpkt.isNone : AVCodecContext σ φ π) with
        bufferPkt := (c.encode2 priv none).2.avpkt.map (c.stamp none) } := by
  have hinternal := encodeReceivePacketInternal_delay c priv last h
  rw [encodeAhead]
  dsimp only [AVCodecContext.drain] at hinternal ⊢
  rw [hinternal]
  by_cases hret : (c.encode2 priv none).2.ret < 0
  · simp [hret, c.ret_ne_eof, c.ret_ne_eagain]
  · cases hpkt : (c.encode2 priv none).2.avpkt <;> simp [hret]

theorem feed_null_related {p : List π × AVCodecContext σ φ π} {q : List π × σ × Bool}
    (h : Idle p q) :
    Flow.Related Drained Stops (feed c none p) (encodeNull c q) := by
  rcases p with ⟨pkts, s⟩
  rcases q with ⟨pkts', priv, last⟩
  obtain rfl : pkts = pkts' := h.packets
  obtain rfl : s = .rest priv last := h.context
  have hsend : avcodecSendFrame c none (.rest priv last) = encodeAhead c (.drain priv last false) :=
    rfl
  cases hdelay : c.capDelay with
  | false =>
    have hahead : encodeAhead c (.drain priv last false) = Flow.next (.drain priv last true) := by
      have hinternal := encodeReceivePacketInternal_noDelay c priv last hdelay
      rw [encodeAhead]
      dsimp only [AVCodecContext.drain] at hinternal ⊢
      rw [hinternal]
      rfl
    rw [feed, hsend, hahead, encodeNull, hdelay]
    exact ⟨List.append_nil _, rfl, rfl⟩
  | true =>
    rw [feed, hsend, encodeAhead_null c priv last hdelay, encodeNull, hdelay]
    simp only [Bool.not_true, Bool.false_eq_true, if_false, flush]
    by_cases hret : (c.encode2 priv none).2.ret < 0
    · simp only [hret, decide_true, List.isEmpty_nil, Bool.and_true, if_true]
      exact ⟨rfl, rfl, rfl⟩
    · simp only [if_neg hret]
      cases hpkt : (c.encode2 priv none).2.avpkt with
      | none => exact ⟨rfl, rfl, rfl⟩
      | some pkt =>
        have hleft := c.left_lt priv (by rw [hpkt]; exact Option.some_ne_none pkt)
        rcases receivePackets_drain c (c.encode2 priv none).1 last hdelay
          (R := ℤ × List π × AVCodecContext σ φ π) (n := c.left (c.encode2 priv none).1 + 1)
          (m := c.left priv) (Nat.lt_succ_self _) hleft with ⟨done, hreceive⟩
        dsimp only [Option.map_some, Option.isNone_some]
        rw [receivePackets_ready c _ _ rfl, AVCodecContext.drain_priv, hreceive]
        simp only [List.isEmpty_cons, Bool.and_false, Bool.false_eq_true, if_false]
        exact ⟨rfl, rfl, rfl⟩

/-- **A caller that receives after every frame sees the function alone**: it is given each frame
once and in order, and after the null frame it is asked until it gives no packet, if it has a
delay at all. The packets received are those that it gives. -/
theorem session_related (frames : List φ) :
    Flow.Related Drained Stops (session c frames priv) (encodeAll c frames priv) :=
  (Flow.related_forEach (fun frame _ _ h => feed_related c frame h) frames ⟨rfl, rfl⟩).bind
    fun _ _ h => feed_null_related c h

theorem compatReceive_ready {size : π → ℕ} {room : Option ℕ} {n : ℕ} {pkt : π}
    {s : AVCodecContext σ φ π} (h : s.bufferPkt = none) :
    compatReceive (R := R) c size room (n + 1) none { s with bufferPkt := some pkt } =
      if room.any fun n => n < size pkt then Flow.next (einval, none, s)
      else if s.draining then Flow.next (0, some pkt, s)
      else compatReceive c size room n (some pkt) s := by
  rw [compatReceive, avcodecReceivePacket_ready c h]
  rfl

/-- **One frame goes in and one packet comes out**: the one of the encoder, if it gives one and
the caller has memory enough for it. The context can be used again. -/
theorem compatEncode_rest {size : π → ℕ} {room : Option ℕ} {frame frame' : φ} {last' : Bool}
    (hvalid : validFrame c last frame = some (frame', last')) :
    compatEncode (R := R) c size room (some frame) (.rest priv last) =
      if (c.encode2 priv (some frame')).2.ret < 0 then
        Flow.next ((c.encode2 priv (some frame')).2.ret, none,
          .rest (c.encode2 priv (some frame')).1 last')
      else
        match (c.encode2 priv (some frame')).2.avpkt.map (c.stamp (some frame')) with
        | none => Flow.next (0, none, .rest (c.encode2 priv (some frame')).1 last')
        | some pkt =>
          if room.any fun n => n < size pkt then
            Flow.next (einval, none, .rest (c.encode2 priv (some frame')).1 last')
          else Flow.next (0, some pkt, .rest (c.encode2 priv (some frame')).1 last') := by
  rw [compatEncode, avcodecSendFrame_rest c priv last hvalid, encodeAhead_frame]
  by_cases hret : (c.encode2 priv (some frame')).2.ret < 0
  · simp only [hret, if_true, c.ret_ne_eof, c.ret_ne_eagain, if_false]
  · rw [if_neg hret, if_neg hret]
    cases (c.encode2 priv (some frame')).2.avpkt with
    | none => rfl
    | some pkt =>
      dsimp only [Option.map_some]
      rw [compatReceive_ready c rfl]
      split_ifs with hshort
      · rfl
      · rfl
      · rfl

end specs

/-- An encoder of pictures without a delay: pictures and packets are told apart by their size. -/
def picture : AVCodec Unit ℕ ℕ where
  audio := false
  capDelay := false
  capSmallLastFrame := false
  capVariableFrameSize := false
  frameSize := 0
  nbSamples _ := 0
  padLastFrame := id
  encode2 _ frame := ((), ⟨0, frame⟩)
  stamp _ := id
  ret_nonpos _ _ := Int.le_refl 0
  ret_ne_eagain _ _ := (by decide : (0 : ℤ) ≠ eagain)
  ret_ne_eof _ _ := (by decide : (0 : ℤ) ≠ eof)
  left _ := 0
  left_lt _ h := absurd rfl h

/-- A packet that fits. -/
theorem compatEncode_rest_fits :
    validFrame picture false 7 = some (7, false) ∧
      compatEncode (R := Unit) picture id (some 12) (some 7) (.rest () false) =
        Flow.next (0, some 7, .rest () false) :=
  ⟨rfl, compatEncode_rest picture () false rfl⟩

/-! ## The sizes of the frames -/

section sizes
variable {σ φ π : Type} {c : AVCodec σ φ π}

/-- Frames of `F` samples, and a last one that may have fewer. -/
structure Sized (c : AVCodec σ φ π) (F : ℕ) (frames : List φ) : Prop where
  full : ∀ f ∈ frames.dropLast, c.nbSamples f = F
  last : ∀ f ∈ frames.getLast?, c.nbSamples f ≤ F

/-- The encoder wants frames of `F` samples, or takes any. -/
def AVCodec.Takes (c : AVCodec σ φ π) (F : ℕ) : Prop :=
  c.frameSize = F ∨ c.capVariableFrameSize = true ∧ c.capSmallLastFrame = false

theorem validFrame_full {F : ℕ} (h : c.Takes F) {frame : φ} (hfull : c.nbSamples frame = F) :
    validFrame c false frame = some (frame, false) := by
  rcases h with rfl | ⟨hvariable, hsmall⟩
  · simp [validFrame, hfull]
  · simp [validFrame, hvariable, hsmall]

theorem validFrame_isSome {F : ℕ} (h : c.Takes F) {frame : φ} (hle : c.nbSamples frame ≤ F) :
    (validFrame c false frame).isSome = true := by
  rcases h with rfl | ⟨hvariable, hsmall⟩
  · have hnot : ¬ c.frameSize < c.nbSamples frame := Nat.not_lt.2 hle
    simp only [validFrame, hnot, if_false, Bool.false_eq_true]
    split_ifs <;> rfl
  · simp [validFrame, hvariable, hsmall]

/-- The packets before are kept. -/
theorem encodeFrame_eq_next {frame : φ} {q q' : List π × σ × Bool}
    (h : encodeFrame c frame q = Flow.next q') :
    ∃ out, q'.1 = q.1 ++ out ∧ encodeFrame c frame ([], q.2) = Flow.next (out, q'.2) := by
  rw [encodeFrame] at h ⊢
  cases hvalid : validFrame c q.2.2 frame with
  | none =>
    rw [hvalid] at h
    cases h
  | some stored =>
    rw [hvalid] at h
    dsimp only at h ⊢
    split_ifs at h with hret
    rw [if_neg hret]
    cases h
    exact ⟨_, rfl, rfl⟩

theorem encodeNull_eq_next {q : List π × σ × Bool} {q' : List π × σ}
    (h : encodeNull c q = Flow.next q') :
    ∃ out, q'.1 = q.1 ++ out ∧ encodeNull c ([], q.2) = Flow.next (out, q'.2) := by
  simp only [encodeNull] at h ⊢
  split_ifs at h ⊢ with hdelay
  · cases h
    exact ⟨[], (List.append_nil _).symm, rfl⟩
  · cases h
    exact ⟨_, rfl, rfl⟩

/-- **Frames of the right sizes are taken**, by an encoder that does not fail. -/
theorem forEach_encodeFrame_eq_next {F : ℕ} (h : c.Takes F)
    (hok : ∀ s f, (c.encode2 s f).2.ret = 0) {frames : List φ} (hsized : Sized c F frames)
    (pkts : List π) (priv : σ) :
    ∃ q, Flow.forEach (encodeFrame c) frames (pkts, priv, false) = Flow.next q := by
  induction frames generalizing pkts priv with
  | nil => exact ⟨_, rfl⟩
  | cons frame frames ih =>
    cases frames with
    | nil =>
      rcases Option.isSome_iff_exists.1 (validFrame_isSome h (hsized.last frame rfl)) with
        ⟨stored, hvalid⟩
      rw [Flow.forEach_cons, encodeFrame, hvalid]
      dsimp only
      rw [if_neg (by rw [hok]; decide)]
      exact ⟨_, rfl⟩
    | cons frame' frames =>
      have hvalid := validFrame_full h (hsized.full frame List.mem_cons_self)
      have hrest : Sized c F (frame' :: frames) :=
        ⟨fun f hf => hsized.full f (List.mem_cons_of_mem _ hf), fun f hf => hsized.last f hf⟩
      rw [Flow.forEach_cons, encodeFrame, hvalid]
      dsimp only
      rw [if_neg (by rw [hok]; decide)]
      exact ih hrest _ _

theorem flush_fst (hok : ∀ s f, (c.encode2 s f).2.ret = 0) (n : ℕ) (priv : σ) :
    (flush c n priv).1 = 0 := by
  induction n generalizing priv with
  | zero => rfl
  | succ n ih =>
    rw [flush, if_neg (by rw [hok]; decide)]
    cases (c.encode2 priv none).2.avpkt with
    | none => rfl
    | some pkt => exact ih _

theorem exists_encodeNull_eq_next (hok : ∀ s f, (c.encode2 s f).2.ret = 0)
    (q : List π × σ × Bool) : ∃ q', encodeNull c q = Flow.next q' := by
  simp only [encodeNull, flush_fst hok]
  split_ifs with hdelay hlt
  · exact ⟨_, rfl⟩
  · simp at hlt
  · exact ⟨_, rfl⟩

end sizes

/-! ## What an encoder sees of a frame -/

section respects
variable {σ φ π : Type} {c : AVCodec σ φ π} {rel : φ → φ → Prop}

/-- The encoder does not tell related frames apart. -/
structure AVCodec.Respects (c : AVCodec σ φ π) (rel : φ → φ → Prop) : Prop where
  nbSamples : ∀ {f f'}, rel f f' → c.nbSamples f = c.nbSamples f'
  pad : ∀ {f f'}, rel f f' → rel (c.padLastFrame f) (c.padLastFrame f')
  encode : ∀ {f f'} (s), rel f f' → c.encode2 s (some f) = c.encode2 s (some f')
  stamp : ∀ {f f'}, rel f f' → c.stamp (some f) = c.stamp (some f')

theorem encodeFrame_congr (h : c.Respects rel) {f f' : φ} (hrel : rel f f')
    (p : List π × σ × Bool) : encodeFrame c f p = encodeFrame c f' p := by
  have hvalid : (validFrame c p.2.2 f = none ∧ validFrame c p.2.2 f' = none) ∨
      ∃ g g' last, validFrame c p.2.2 f = some (g, last) ∧
        validFrame c p.2.2 f' = some (g', last) ∧ rel g g' := by
    simp only [validFrame, h.nbSamples hrel]
    split_ifs
    all_goals first
      | exact .inl ⟨rfl, rfl⟩
      | exact .inr ⟨_, _, _, rfl, rfl, hrel⟩
      | exact .inr ⟨_, _, _, rfl, rfl, h.pad hrel⟩
  rw [encodeFrame, encodeFrame]
  rcases hvalid with ⟨hnone, hnone'⟩ | ⟨g, g', last, hsome, hsome', hrel'⟩
  · rw [hnone, hnone']
  · rw [hsome, hsome']
    simp only [h.encode p.2.1 hrel', h.stamp hrel']

theorem encodeAll_congr (h : c.Respects rel) {frames frames' : List φ}
    (hframes : List.Forall₂ rel frames frames') (priv : σ) :
    encodeAll c frames priv = encodeAll c frames' priv := by
  have hloop : ∀ p, Flow.forEach (encodeFrame c) frames p =
      Flow.forEach (encodeFrame c) frames' p := by
    induction hframes with
    | nil => exact fun _ => rfl
    | cons hrel _ ih =>
      intro p
      rw [Flow.forEach_cons, Flow.forEach_cons, encodeFrame_congr h hrel, funext ih]
  rw [encodeAll, encodeAll, hloop]

end respects

end AudioCrash.Encode
