import AudioCrash.Audio.Blocks
import AudioCrash.Audio.Release
import AudioCrash.Lib.Script
import AudioCrash.Swr.Fifo

/-!
# The programs over `swr_convert`

The resampler of a run is an unbounded queue. Here the same programs run with a context of the
resampler: `swr_convert` takes the samples of the decoded frames, the drain loop asks
`swr_get_out_samples`, and the chunks are what `swr_convert` hands out. The two runs are compared
statement by statement: they have the same variables, the same content of the chunk buffer and
the same calls, as long as `swr_convert` takes every frame.

Where the drain loop stands inside the packet loop, the queue is short whenever a packet comes,
so that a buffer of bounded size serves streams of any length. Where the drain loop comes after
the packet loop, the whole stream waits in the buffer, whose size is limited.

What comes out of the resampler has a value for every channel that there is; the answers of the
other FFmpeg calls depend on these values only (`Ffmpeg.SeesChannels`).

## Main definitions

* `SwrState`, `OverSwr.run` — the programs over `swr_convert`.
* `SameVars` — the same variables, calls and chunk buffer.
* `Simulates` — the invariant: the context stands for the queue of the run.
* `run_overSwr_interleaved`, `run_overSwr_drained` — the two loop structures.
-/

namespace AudioCrash.Audio

open Grid Swr

variable {α : Type}

/-! ## The programs -/

/-- The variables of a run, of which `fifo` is not used, and the context of the resampler. -/
structure SwrState (α : Type) where
  vars : State α
  swr : SwrContext α
  /-- For how many samples of a channel the buffer of the resampler had room after each call. -/
  rooms : List ℕ

/-- A statement goes on, or returns a code. -/
abbrev SwrStep (α : Type) := Flow (ℤ × SwrState α) (SwrState α)

namespace SwrState

/-- A statement that does not call the resampler. -/
def lift (body : State α → Step α) (s : SwrState α) : SwrStep α :=
  (body s.vars).map (fun vars => { s with vars := vars }) fun r => (r.1, { s with vars := r.2 })

/-- The resampler has been called. -/
def called (s : SwrState α) (vars : State α) (swr : SwrContext α) : SwrState α :=
  ⟨vars, swr, s.rooms ++ [swr.inBuffer.count]⟩

/-- Make a call that is not one of the resampler. -/
def call (s : SwrState α) (c : Call α) : SwrState α := { s with vars := s.vars.call c }

end SwrState

namespace OverSwr
variable (x : Context α) (available : ℕ → Bool) (zero : α)

/-- One iteration of the loop over the decoded frames. -/
def push (f : AVFrame α) (s : SwrState α) : SwrStep α :=
  let (feed, fed) := x.pipeline.feed x.fmt x.C s.vars.feed f
  let xs := f.samples x.fmt x.C fed.inCount.toNat fed.handle
  let vars := { s.vars with feed := feed, decoded := s.vars.decoded ++ [f] }
  match s.swr.swrConvert available zero 0 (some (f, fed.handle, fed.inCount.toNat)) with
  | .error _ => Flow.ret (-18000, { s with vars := vars })
  | .ok (out, swr) =>
    if out.length ≠ 0 then Flow.ret (-18000, s.called vars swr)
    else Flow.next (s.called (vars.call (.push xs)) swr)

/-- `swr_convert(swr_ctx, buffer, audio_output_frame_size, nullptr, 0)`: the samples handed out,
which are written to the planes of `buffer`. -/
def pull (s : SwrState α) : List (Sample α) × SwrState α :=
  let (chunk, swr) := s.swr.swrDrain x.F
  let mem := updateGrid x.C chunk.length (pcm (planeAt x.F))
    (fun p i old => (chunk[i]?.map fun v => v p).getD old) s.vars.mem
  (chunk, s.called { s.vars.call (.pull chunk) with mem := mem } swr)

/-- One iteration of the drain loop. -/
def drainStep (s : SwrState α) : SwrStep α :=
  let samples := pull x s
  (samples.2.lift (sendChunk x (-19000) (-20000) samples.1)).bind fun s =>
  s.lift (receivePackets x (-21000))

/-- `while (swr_get_out_samples(swr_ctx, 0) > audio_output_frame_size)`. -/
def drain (s : SwrState α) : SwrStep α :=
  Flow.whileLoop (fun s => decide (x.F < s.swr.swrGetOutSamples)) (drainStep x)
    (s.swr.swrGetOutSamples + 1) s

/-- One iteration of the loop over the packets of the input. -/
def onPacket (event : Event α) (s : SwrState α) : SwrStep α :=
  let s := s.call .readFrame
  match event with
  | .other => Flow.next (s.call .unref)
  | .rejected => Flow.next (s.call .unref)
  | .accepted frames =>
    ((Flow.forEach (push x available zero) frames s).bind fun s =>
      if x.pipeline.interleaved then drain x s else Flow.next s).bind fun s =>
    Flow.next (s.call .unref)

/-- The flush of the encoder and the trailer. -/
def flush (s : State α) : Step α :=
  let s' := s.call .sendNull
  (if x.ffmpeg.sendFrameOk s.log then Flow.next s' else Flow.ret (-24000, s')).bind fun s =>
  (receivePackets x (-25000) s).bind fun s =>
  let s' := s.call .writeTrailer
  if x.ffmpeg.trailerOk s.log then Flow.ret (0, s') else Flow.ret (-26000, s')

/-- The tail chunk, the flush of the encoder and the trailer. -/
def finish (s : SwrState α) : SwrStep α :=
  let samples := pull x s
  (if 0 < samples.1.length then samples.2.lift (sendChunk x (-22000) (-23000) samples.1)
    else Flow.next samples.2).bind fun s =>
  s.lift (flush x)

/-- `run` from `/// 5. Decode` on. -/
def run (events : List (Event α)) (s : SwrState α) : SwrStep α :=
  (Flow.forEach (onPacket x available zero) events s).bind fun s =>
  (if x.pipeline.interleaved then Flow.next s else drain x s).bind fun s =>
  finish x s

/-- The state before the first packet, after `swr_init`. -/
def init (mem : ℤ → α) (handle : ℕ → ℤ) : SwrState α :=
  ⟨State.init x mem handle, .init x.fmt x.C zero, []⟩

end OverSwr

/-! ## The same calls on the channels that there are -/

/-- The samples are the same on the channels that there are. -/
def SameSamples (C : ℕ) (xs ys : List (Sample α)) : Prop :=
  xs.map (onChannels C) = ys.map (onChannels C)

/-- Two calls that differ in no channel that there is. -/
inductive SameCall (C : ℕ) : Call α → Call α → Prop
  | refl (c : Call α) : SameCall C c c
  | pull {xs ys : List (Sample α)} (h : SameSamples C xs ys) : SameCall C (.pull xs) (.pull ys)
  | sendFrame {xs ys : List (Sample α)} (h : SameSamples C xs ys) (frame : AVFrame α) :
    SameCall C (.sendFrame xs frame) (.sendFrame ys frame)

/-- Two logs that differ in no channel that there is. -/
abbrev SameLog (C : ℕ) : List (Call α) → List (Call α) → Prop := List.Forall₂ (SameCall C)

/-- The answers depend on the channels that there are. -/
structure Ffmpeg.SeesChannels (ffmpeg : Ffmpeg α) (C : ℕ) : Prop where
  fillOk : ∀ log log', SameLog C log log' → ffmpeg.fillOk log = ffmpeg.fillOk log'
  sendFrameOk : ∀ log log', SameLog C log log' → ffmpeg.sendFrameOk log = ffmpeg.sendFrameOk log'
  packets : ∀ log log', SameLog C log log' → ffmpeg.packets log = ffmpeg.packets log'
  writeOk : ∀ log log', SameLog C log log' → ffmpeg.writeOk log = ffmpeg.writeOk log'
  trailerOk : ∀ log log', SameLog C log log' → ffmpeg.trailerOk log = ffmpeg.trailerOk log'

section same
variable {C : ℕ} {xs ys : List (Sample α)} {log log' : List (Call α)}

theorem SameSamples.length_eq (h : SameSamples C xs ys) : xs.length = ys.length := by
  simpa using congrArg List.length h

/-- The values of one channel. -/
theorem SameSamples.getElem?_map (h : SameSamples C xs ys) {p : ℕ} (hp : p < C) (i : ℕ) :
    (xs[i]?.map fun v => v p) = ys[i]?.map fun v => v p := by
  have hget : ∀ zs : List (Sample α), (zs[i]?.map fun v => v p) =
      ((zs.map (onChannels C))[i]?).map fun w => w ⟨p, hp⟩ := by
    intro zs
    rw [List.getElem?_map, Option.map_map]
    rfl
  rw [hget, hget, h]

theorem SameLog.call (h : SameLog C log log') {c c' : Call α} (hc : SameCall C c c') :
    SameLog C (log ++ [c]) (log' ++ [c']) :=
  List.rel_append h (.cons hc .nil)

theorem SameLog.handed_eq_nil (h : SameLog C log log') (hnil : handed log' = []) :
    handed log = [] := by
  induction h with
  | nil => rfl
  | @cons c _ _ _ hc _ ih =>
    cases hc with
    | refl => cases c <;> first | exact ih hnil | simp [handed] at hnil
    | pull => exact ih hnil
    | sendFrame => simp [handed] at hnil

end same

/-- The same variables, except for the queue, and calls that differ in no channel that there
is. -/
structure SameVars (C : ℕ) (v t : State α) : Prop where
  mem : v.mem = t.mem
  nbSamples : v.nbSamples = t.nbSamples
  data : v.data = t.data
  drop : v.drop = t.drop
  feed : v.feed = t.feed
  pos : v.pos = t.pos
  decoded : v.decoded = t.decoded
  log : SameLog C v.log t.log

theorem SameVars.call {C : ℕ} {v t : State α} (h : SameVars C v t) {c c' : Call α}
    (hc : SameCall C c c') : SameVars C (v.call c) (t.call c') :=
  ⟨h.mem, h.nbSamples, h.data, h.drop, h.feed, h.pos, h.decoded, h.log.call hc⟩

theorem SameVars.args {C : ℕ} {v t : State α} (h : SameVars C v t) : v.args = t.args := by
  rw [State.args, State.args, h.decoded, h.pos, h.feed]

/-! ## Statements that do not call the resampler -/

/-- The same variables, where the queue and what feeds it are as they were in `t`. -/
structure Beside (C : ℕ) (t v t' : State α) : Prop where
  vars : SameVars C v t'
  fifo : t'.fifo = t.fifo
  feed : t'.feed = t.feed
  decoded : t'.decoded = t.decoded

/-- The same code, and the same variables. -/
def SameEnd (C : ℕ) (r r' : ℤ × State α) : Prop := r.1 = r'.1 ∧ SameVars C r.2 r'.2

theorem Beside.refl {C : ℕ} {v t : State α} (h : SameVars C v t) : Beside C t v t :=
  ⟨h, rfl, rfl, rfl⟩

theorem Beside.call {C : ℕ} {v t t' : State α} (h : Beside C t v t') {c c' : Call α}
    (hc : SameCall C c c') : Beside C t (v.call c) (t'.call c') :=
  ⟨h.vars.call hc, h.fifo, h.feed, h.decoded⟩

/-- A statement does the same in both runs, and leaves the queue alone. -/
def DoesSame (C : ℕ) (body body' : State α → Step α) : Prop :=
  ∀ v t, SameVars C v t → Flow.Related (Beside C t) (SameEnd C) (body v) (body' t)

theorem DoesSame.beside {C : ℕ} {t₀ v t : State α} {body body' : State α → Step α}
    (hbody : DoesSame C body body') (h : Beside C t₀ v t) :
    Flow.Related (Beside C t₀) (SameEnd C) (body v) (body' t) := by
  refine (hbody v t h.vars).imp (fun v' t' h' => ?_) fun _ _ hr => hr
  exact ⟨h'.vars, h'.fifo.trans h.fifo, h'.feed.trans h.feed, h'.decoded.trans h.decoded⟩

section statements
variable {x : Context α} (hsees : x.ffmpeg.SeesChannels x.C)

/-- `swr_convert` takes every frame. -/
def Context.unlimited (x : Context α) : Context α :=
  { x with ffmpeg := { x.ffmpeg with convertOk := fun _ => true } }

include hsees

/-- A chunk is filled in. -/
theorem fillAudioFrame_same {v t : State α} (h : SameVars x.C v t) :
    fillAudioFrame x v = none ∧ fillAudioFrame x.unlimited t = none ∨
      ∃ v' t', fillAudioFrame x v = some v' ∧ fillAudioFrame x.unlimited t = some t' ∧
        Beside x.C t v' t' := by
  have hfill : x.ffmpeg.fillOk v.log = x.unlimited.ffmpeg.fillOk t.log := hsees.fillOk _ _ h.log
  have hcall := (Beside.refl h).call (.refl .fill)
  have hC : x.unlimited.C = x.C := rfl
  have hF : x.unlimited.F = x.F := rfl
  simp only [fillAudioFrame, hfill, h.nbSamples, hC, hF]
  split_ifs
  · exact Or.inl ⟨rfl, rfl⟩
  · have hvars := hcall.vars
    exact Or.inr ⟨_, _, rfl, rfl, ⟨hvars.mem, hvars.nbSamples, rfl, hvars.drop, hvars.feed,
      hvars.pos, hvars.decoded, hvars.log⟩, rfl, rfl, rfl⟩
  · exact Or.inl ⟨rfl, rfl⟩

/-- A chunk is handed over. -/
theorem sendChunk_same (fillCode sendCode : ℤ) {chunk chunk' : List (Sample α)}
    (hchunk : SameSamples x.C chunk chunk') :
    DoesSame x.C (sendChunk x fillCode sendCode chunk)
      (sendChunk x.unlimited fillCode sendCode chunk') := by
  intro v t h
  have htuned : SameVars x.C (tuned x chunk v) (tuned x.unlimited chunk' t) := by
    refine ⟨?_, hchunk.length_eq, h.data, h.drop, h.feed, ?_, h.decoded, h.log⟩
    · simp only [tuned, h.args, h.mem, hchunk.length_eq]
      rfl
    · simp only [tuned, h.pos, hchunk.length_eq]
  rw [sendChunk_eq_bind, sendChunk_eq_bind]
  rcases fillAudioFrame_same hsees htuned with ⟨hv, ht⟩ | ⟨v', t', hv, ht, hfilled⟩
  · rw [hv, ht]
    exact ⟨rfl, htuned⟩
  · rw [hv, ht]
    have hframe : (⟨v'.nbSamples, v'.data, v'.mem⟩ : AVFrame α) =
        ⟨t'.nbSamples, t'.data, t'.mem⟩ := by
      rw [hfilled.vars.nbSamples, hfilled.vars.data, hfilled.vars.mem]
    have hsend : x.ffmpeg.sendFrameOk v'.log = x.unlimited.ffmpeg.sendFrameOk t'.log :=
      hsees.sendFrameOk _ _ hfilled.vars.log
    have hcall := hfilled.call (.sendFrame hchunk ⟨t'.nbSamples, t'.data, t'.mem⟩)
    simp only [Option.elim_some, Flow.bind_next, sendFrame, hframe, hsend]
    split_ifs
    · exact ⟨hcall.vars, hcall.fifo, hcall.feed, hcall.decoded⟩
    · exact ⟨rfl, hcall.vars⟩

theorem receivePacket_same (code : ℤ) (pkt : Packet) :
    DoesSame x.C (receivePacket x code pkt) (receivePacket x.unlimited code pkt) := by
  intro v t h
  have hreceive := (Beside.refl h).call (.refl (.receivePacket pkt))
  have hwrite : x.ffmpeg.writeOk (v.call (.receivePacket pkt)).log =
      x.unlimited.ffmpeg.writeOk (t.call (.receivePacket pkt)).log :=
    hsees.writeOk _ _ hreceive.vars.log
  have hrescale : x.unlimited.ffmpeg.rescaleTs = x.ffmpeg.rescaleTs := rfl
  have hindex : x.unlimited.streamIndex = x.streamIndex := rfl
  simp only [receivePacket, hwrite, hreceive.vars.drop, hrescale, hindex]
  split_ifs
  · exact hreceive.call (.refl _)
  · exact ⟨rfl, (hreceive.call (.refl _)).vars⟩
  · have hvars := hreceive.vars
    exact ⟨⟨hvars.mem, hvars.nbSamples, hvars.data, rfl, hvars.feed, hvars.pos, hvars.decoded,
      hvars.log⟩, hreceive.fifo, hreceive.feed, hreceive.decoded⟩

theorem receivePackets_same (code : ℤ) :
    DoesSame x.C (receivePackets x code) (receivePackets x.unlimited code) := by
  intro v t h
  have hpackets : x.ffmpeg.packets v.log = x.unlimited.ffmpeg.packets t.log :=
    hsees.packets _ _ h.log
  rw [receivePackets, receivePackets, hpackets]
  exact Flow.related_forEach (fun pkt _ _ h' => (receivePacket_same hsees code pkt).beside h') _
    (Beside.refl h)

/-- The end of a run. -/
theorem flush_same {v t : State α} (h : SameVars x.C v t) :
    Flow.Related (fun _ _ => False) (SameEnd x.C) (OverSwr.flush x v)
      (OverSwr.flush x.unlimited t) := by
  have hnull := (Beside.refl h).call (.refl .sendNull)
  have hsend : x.ffmpeg.sendFrameOk v.log = x.unlimited.ffmpeg.sendFrameOk t.log :=
    hsees.sendFrameOk _ _ h.log
  have hstep : Flow.Related (Beside x.C t) (SameEnd x.C)
      (if x.ffmpeg.sendFrameOk v.log then Flow.next (v.call .sendNull)
        else Flow.ret (-24000, v.call .sendNull))
      (if x.unlimited.ffmpeg.sendFrameOk t.log then Flow.next (t.call .sendNull)
        else Flow.ret (-24000, t.call .sendNull)) := by
    rw [hsend]
    split_ifs
    · exact hnull
    · exact ⟨rfl, hnull.vars⟩
  refine hstep.bind fun v₁ t₁ h₁ => ((receivePackets_same hsees (-25000)).beside h₁).bind
    fun v₂ t₂ h₂ => ?_
  have htrailer : x.ffmpeg.trailerOk v₂.log = x.unlimited.ffmpeg.trailerOk t₂.log :=
    hsees.trailerOk _ _ h₂.vars.log
  have hend := (h₂.call (.refl .writeTrailer)).vars
  simp only [htrailer]
  split_ifs
  · exact ⟨rfl, hend⟩
  · exact ⟨rfl, hend⟩

end statements

/-! ## The context stands for the queue -/

section simulation
variable (x : Context α) (available : ℕ → Bool) (zero : α) (handle : ℕ → ℤ)

/-- The samples that a frame pushes. -/
def Context.fedSamples (s : State α) (f : AVFrame α) : List (Sample α) :=
  (x.feedStep (s.feed, []) f).2

/-- The frame has been pushed. -/
def afterPush (f : AVFrame α) (s : State α) : State α :=
  { s.call (.push (x.fedSamples s f)) with
    feed := (x.feedStep (s.feed, []) f).1
    decoded := s.decoded ++ [f]
    fifo := s.fifo ++ x.fedSamples s f }

/-- How the room for the queue is limited. -/
abbrev Context.limit : ℕ → Bool := Swr.limit x.fmt.bytesPerSample x.C

/-- Which sizes of the queue there is memory for. -/
abbrev Context.memory : ℕ → Bool := Swr.memory available x.fmt.bytesPerSample x.C

theorem push_unlimited (f : AVFrame α) (t : State α) :
    push x.unlimited f t = Flow.next (afterPush x f t) := rfl

/-- The two runs have the same variables, and the context of the resampler stands for the queue
of the run, which is the queue `q` in a buffer. -/
structure Simulates (s : SwrState α) (t : State α) (q : Queue (Fin x.C → α)) : Prop where
  vars : SameVars x.C s.vars t
  represents : Represents x.fmt x.C zero s.swr q
  items : q.items = t.fifo.map (onChannels x.C)
  feed : t.feed = (x.stream handle t.decoded).1

variable {x available zero handle} {s : SwrState α} {t : State α} {q : Queue (Fin x.C → α)}

theorem Simulates.length_fifo (h : Simulates x zero handle s t q) :
    q.items.length = t.fifo.length := by
  rw [h.items, List.length_map]

theorem Simulates.init (mem : ℤ → α) : Simulates x zero handle (OverSwr.init x zero mem handle)
    (State.init x mem handle) .empty :=
  ⟨⟨rfl, rfl, rfl, rfl, rfl, rfl, rfl, .nil⟩, .init x.fmt x.C zero, rfl, rfl⟩

theorem Simulates.call (h : Simulates x zero handle s t q) (c : Call α) :
    Simulates x zero handle (s.call c) (t.call c) q :=
  ⟨h.vars.call (.refl c), h.represents, h.items, h.feed⟩

theorem Simulates.beside (h : Simulates x zero handle s t q) {v t' : State α}
    (hb : Beside x.C t v t') : Simulates x zero handle { s with vars := v } t' q := by
  refine ⟨hb.vars, h.represents, ?_, ?_⟩
  · rw [hb.fifo]
    exact h.items
  · rw [hb.feed, hb.decoded]
    exact h.feed

/-- `swr_get_out_samples` is the length of the queue. -/
theorem Simulates.swrGetOutSamples (h : Simulates x zero handle s t q) :
    s.swr.swrGetOutSamples = t.fifo.length :=
  h.represents.count.trans (q.length_eq.symm.trans h.length_fifo)

variable (available) in
/-- **A frame is pushed** when the queue in the buffer can take its samples. -/
theorem Simulates.push_holds (h : Simulates x zero handle s t q) (f : AVFrame α)
    (hint : q.extent.index + q.extent.count + (x.fedSamples t f).length ≤ intMax) :
    match q.exchange x.limit (x.memory available) 0
        ((x.fedSamples t f).map (onChannels x.C)) with
    | none => ∃ s', OverSwr.push x available zero f s = Flow.ret (-18000, s') ∧
        s'.vars.log = s.vars.log
    | some (_, q') => ∃ s', OverSwr.push x available zero f s = Flow.next s' ∧
        Simulates x zero handle s' (afterPush x f t) q' ∧
        s'.rooms = s.rooms ++ [q'.extent.capacity] := by
  let fed := (x.pipeline.feed x.fmt x.C t.feed f).2
  have hagree : Swr.SameResult x.fmt x.C zero
      (s.swr.swrConvert available zero 0 (some (f, fed.handle, fed.inCount.toNat)))
      (q.exchange x.limit (x.memory available) 0 ((x.fedSamples t f).map (onChannels x.C))) :=
    swrConvert_represents available h.represents 0 (some (f, fed.handle, fed.inCount.toNat))
      (by simpa [inputOf, Context.fedSamples, Context.feedStep] using hint)
  cases hq : q.exchange x.limit (x.memory available) 0
      ((x.fedSamples t f).map (onChannels x.C)) with
  | none =>
    rw [hq] at hagree
    rcases hagree.exists_error with ⟨code, hs⟩
    simp only [OverSwr.push, h.vars.feed, fed] at hs ⊢
    rw [hs]
    exact ⟨_, rfl, rfl⟩
  | some out' =>
    obtain ⟨out', q'⟩ := out'
    rw [hq] at hagree
    rcases hagree.exists_ok with ⟨out, swr', hs, hout, hrep⟩
    have hnil := Queue.exchange_length hq
    rw [Nat.zero_min, List.length_eq_zero_iff] at hnil
    rw [hnil] at hout
    simp only [OverSwr.push, h.vars.feed, fed] at hs ⊢
    rw [hs]
    refine ⟨_, if_neg (by simp [List.map_eq_nil_iff.1 hout]), ⟨?vars, hrep, ?items, ?feed⟩, ?rooms⟩
    case vars =>
      have hvars := h.vars
      refine ⟨hvars.mem, hvars.nbSamples, hvars.data, hvars.drop, rfl, hvars.pos, ?_,
        hvars.log.call ?_⟩
      · exact congrArg (· ++ [f]) hvars.decoded
      · exact .refl _
    case items =>
      have hitems := Queue.exchange_items hq
      rw [hnil, List.nil_append, h.items] at hitems
      exact hitems.trans List.map_append.symm
    case feed =>
      change _ = (x.stream handle (t.decoded ++ [f])).1
      rw [Context.stream_concat, Context.feedStep_eq, ← h.feed]
      rfl
    case rooms => exact congrArg (fun n => s.rooms ++ [n]) hrep.capacity

/-- **A block is pulled**: the same samples come out, and the same values are in the chunk
buffer. -/
theorem Simulates.pull_holds (h : Simulates x zero handle s t q) :
    SameSamples x.C (OverSwr.pull x s).1 (pull x.unlimited t).1 ∧
      Simulates x zero handle (OverSwr.pull x s).2 (pull x.unlimited t).2 (q.take x.F).2 ∧
      (OverSwr.pull x s).2.rooms = s.rooms ++ [q.extent.capacity] := by
  rcases swrDrain_represents h.represents x.F with ⟨hout, hrep⟩
  have hsame : SameSamples x.C (s.swr.swrDrain x.F).1 (t.fifo.take x.F) := by
    rw [SameSamples, hout, Queue.take_fst, h.items, List.map_take]
  refine ⟨hsame, ⟨?vars, hrep, ?items, h.feed⟩, ?rooms⟩
  case vars =>
    have hvars := h.vars.call (.pull hsame)
    refine ⟨?_, hvars.nbSamples, hvars.data, hvars.drop, hvars.feed, hvars.pos, hvars.decoded,
      hvars.log⟩
    change updateGrid x.C (s.swr.swrDrain x.F).1.length _ _ s.vars.mem =
      updateGrid x.C (t.fifo.take x.F).length _ _ t.mem
    rw [hsame.length_eq, h.vars.mem]
    refine updateGrid_congr _ _ _ _ fun p hp => funext fun i => funext fun old => ?_
    exact congrArg (Option.getD · old) (hsame.getElem?_map hp i)
  case items =>
    rw [Queue.take_snd_items, h.items, ← List.map_drop]
    rfl
  case rooms =>
    have hcap := hrep.capacity
    rw [Queue.take_snd_extent, Extent.take_capacity] at hcap
    exact congrArg (fun n => s.rooms ++ [n]) hcap

/-! ## The statements of the run -/

variable (x zero handle) in
/-- The buffer of the resampler has had room for `cap` samples of a channel at most. -/
structure InRoom (cap : ℕ) (s : SwrState α) (t : State α) : Prop where
  simulates : ∃ q, Simulates x zero handle s t q ∧ q.extent.capacity ≤ cap
  rooms : ∀ room ∈ s.rooms, room ≤ cap

/-- The same code, and the same variables, and a buffer that has had room for `cap` samples of a
channel at most. -/
structure EndsAlike (C cap : ℕ) (r : ℤ × SwrState α) (r' : ℤ × State α) : Prop where
  code : r.1 = r'.1
  vars : SameVars C r.2.vars r'.2
  rooms : ∀ room ∈ r.2.rooms, room ≤ cap

variable {cap : ℕ}

theorem InRoom.init (mem : ℤ → α) : InRoom x zero handle cap (OverSwr.init x zero mem handle)
    (State.init x mem handle) :=
  ⟨⟨_, Simulates.init mem, Nat.zero_le _⟩, fun _ hroom => absurd hroom List.not_mem_nil⟩

theorem InRoom.call (h : InRoom x zero handle cap s t) (c : Call α) :
    InRoom x zero handle cap (s.call c) (t.call c) := by
  rcases h.simulates with ⟨q, hq, hcap⟩
  exact ⟨⟨q, hq.call c, hcap⟩, h.rooms⟩

theorem InRoom.length_fifo (h : InRoom x zero handle cap s t) :
    s.swr.swrGetOutSamples = t.fifo.length := by
  rcases h.simulates with ⟨q, hq, -⟩
  exact hq.swrGetOutSamples

theorem InRoom.feed (h : InRoom x zero handle cap s t) :
    t.feed = (x.stream handle t.decoded).1 := by
  rcases h.simulates with ⟨q, hq, -⟩
  exact hq.feed

/-- The buffer after one more call. -/
theorem Simulates.inRoom {s' : SwrState α} (h : Simulates x zero handle s' t q)
    (hcap : q.extent.capacity ≤ cap) (hrooms : ∀ room ∈ s.rooms, room ≤ cap)
    (hcalled : s'.rooms = s.rooms ++ [q.extent.capacity]) : InRoom x zero handle cap s' t := by
  refine ⟨⟨q, h, hcap⟩, ?_⟩
  rw [hcalled]
  intro room hroom
  rcases List.mem_append.1 hroom with hold | hnew
  · exact hrooms room hold
  · rw [List.mem_singleton.1 hnew]
    exact hcap

theorem InRoom.pull_holds (h : InRoom x zero handle cap s t) :
    SameSamples x.C (OverSwr.pull x s).1 (pull x.unlimited t).1 ∧
      InRoom x zero handle cap (OverSwr.pull x s).2 (pull x.unlimited t).2 := by
  rcases h.simulates with ⟨q, hq, hcap⟩
  rcases hq.pull_holds with ⟨hsame, hpull, hrooms⟩
  have hle : (q.take x.F).2.extent.capacity ≤ cap := by simpa using hcap
  exact ⟨hsame, hpull.inRoom hle h.rooms (by simpa using hrooms)⟩

/-- A statement that does not call the resampler. -/
theorem InRoom.lift {body body' : State α → Step α} (hbody : DoesSame x.C body body')
    (h : InRoom x zero handle cap s t) :
    Flow.Related (InRoom x zero handle cap) (EndsAlike x.C cap) (s.lift body) (body' t) := by
  rcases h.simulates with ⟨q, hq, hcap⟩
  exact (hbody s.vars t hq.vars).map (fun _ _ hv => ⟨⟨q, hq.beside hv, hcap⟩, h.rooms⟩)
    fun _ _ hr => ⟨hr.1, hr.2, h.rooms⟩

/-! ### The drain loop and the end -/

theorem drain_related (hsees : x.ffmpeg.SeesChannels x.C) (h : InRoom x zero handle cap s t) :
    Flow.Related (InRoom x zero handle cap) (EndsAlike x.C cap) (OverSwr.drain x s)
      (drain x.unlimited t) := by
  rw [OverSwr.drain, drain, h.length_fifo]
  refine Flow.related_whileLoop (fun s t hs => ?_) (fun s t hs => ?_) _ h
  · rw [hs.length_fifo]
    rfl
  · rcases hs.pull_holds with ⟨hsame, hpull⟩
    exact (hpull.lift (sendChunk_same hsees (-19000) (-20000) hsame)).bind fun _ _ h₁ =>
      h₁.lift (receivePackets_same hsees (-21000))

theorem finish_related (hsees : x.ffmpeg.SeesChannels x.C) (h : InRoom x zero handle cap s t) :
    Flow.Related (fun _ _ => False) (EndsAlike x.C cap) (OverSwr.finish x s)
      (finish x.unlimited t) := by
  rcases h.pull_holds with ⟨hsame, hpull⟩
  have htail : Flow.Related (InRoom x zero handle cap) (EndsAlike x.C cap)
      (if 0 < (OverSwr.pull x s).1.length then (OverSwr.pull x s).2.lift
        (sendChunk x (-22000) (-23000) (OverSwr.pull x s).1) else .next (OverSwr.pull x s).2)
      (if 0 < (pull x.unlimited t).1.length then sendChunk x.unlimited (-22000) (-23000)
        (pull x.unlimited t).1 (pull x.unlimited t).2 else .next (pull x.unlimited t).2) := by
    rw [hsame.length_eq]
    split_ifs
    · exact hpull.lift (sendChunk_same hsees (-22000) (-23000) hsame)
    · exact hpull
  refine htail.bind fun s₁ t₁ h₁ => ?_
  rcases h₁.simulates with ⟨q, hq, -⟩
  exact (flush_same hsees hq.vars).map (fun _ _ hv => hv) fun _ _ hr => ⟨hr.1, hr.2, h₁.rooms⟩

/-! ## The length of the stream -/

theorem length_stream_concat {f : AVFrame α} (h : t.feed = (x.stream handle t.decoded).1) :
    (x.stream handle (t.decoded ++ [f])).2.length =
      (x.stream handle t.decoded).2.length + (x.fedSamples t f).length := by
  rw [Context.stream_concat, Context.feedStep_eq, ← h, List.length_append]
  rfl

theorem length_stream_le (x : Context α) (handle : ℕ → ℤ) (frames frames' : List (AVFrame α)) :
    (x.stream handle frames).2.length ≤ (x.stream handle (frames ++ frames')).2.length := by
  induction frames' using List.reverseRecOn with
  | nil => rw [List.append_nil]
  | append_singleton frames' f ih =>
    rw [← List.append_assoc, Context.stream_concat, Context.feedStep_eq, List.length_append]
    exact ih.trans (Nat.le_add_right _ _)

theorem limit_of_le {size size' : ℕ} (hlimit : x.limit size' = true) (hle : size ≤ size') :
    x.limit size = true :=
  decide_eq_true (hle.trans (of_decide_eq_true hlimit))

/-- Sizes under the limit are halves of an `int`. -/
theorem le_of_limit {size : ℕ} (hlimit : x.limit size = true) : size ≤ intMax / 2 :=
  (of_decide_eq_true hlimit).trans ((Nat.div_le_self _ _).trans (Nat.div_le_self _ _))

/-! ## The drain loop inside the packet loop -/

section interleaved
variable {m : ℕ} (hlimit : x.limit (4 * m) = true)
  (hmemory : ∀ size ≤ 2 * m, x.memory available size = true)
include hlimit hmemory

/-- A frame that leaves the queue short enough is taken. -/
theorem InRoom.push_holds (h : InRoom x zero handle (4 * m) s t) {f : AVFrame α}
    (hm : t.fifo.length + (x.fedSamples t f).length ≤ m) :
    ∃ s', OverSwr.push x available zero f s = Flow.next s' ∧
      InRoom x zero handle (4 * m) s' (afterPush x f t) := by
  rcases h.simulates with ⟨q, hq, hcap⟩
  have hlen : q.items.length + ((x.fedSamples t f).map (onChannels x.C)).length ≤ m := by
    rw [hq.length_fifo, List.length_map]
    exact hm
  have hint : q.extent.index + q.extent.count + (x.fedSamples t f).length ≤ intMax := by
    have hend := q.extent.le
    have hhalf := le_of_limit hlimit
    have hmax : intMax = 2 ^ 31 - 1 := rfl
    omega
  rcases Queue.exchange_zero_isSome hcap hlen (fun _ hle => limit_of_le hlimit hle) hmemory with
    ⟨q', hexchange, -, hcap'⟩
  have hpush := hq.push_holds available f hint
  rw [hexchange] at hpush
  rcases hpush with ⟨s', hs', hq', hrooms⟩
  exact ⟨s', hs', hq'.inRoom hcap' h.rooms hrooms⟩

/-- The frames of a packet are taken, where they leave the queue short enough. -/
theorem forEach_push_inRoom (fs : List (AVFrame α)) (h : InRoom x zero handle (4 * m) s t)
    (hm : t.fifo.length + (x.stream handle (t.decoded ++ fs)).2.length ≤
      m + (x.stream handle t.decoded).2.length) :
    ∃ s' t', Flow.forEach (OverSwr.push x available zero) fs s = Flow.next s' ∧
      Flow.forEach (push x.unlimited) fs t = Flow.next t' ∧
      InRoom x zero handle (4 * m) s' t' := by
  induction fs generalizing s t with
  | nil => exact ⟨s, t, rfl, rfl, h⟩
  | cons f fs ih =>
    have hsplit : t.decoded ++ f :: fs = t.decoded ++ [f] ++ fs := by simp
    have hone := length_stream_concat (f := f) h.feed
    have hle := length_stream_le x handle (t.decoded ++ [f]) fs
    rw [hsplit] at hm
    rcases h.push_holds hlimit hmemory (f := f) (by omega) with ⟨s₁, hpush, h₁⟩
    have hrest : (afterPush x f t).fifo.length +
        (x.stream handle ((afterPush x f t).decoded ++ fs)).2.length ≤
          m + (x.stream handle (afterPush x f t).decoded).2.length := by
      change (t.fifo ++ x.fedSamples t f).length +
        (x.stream handle (t.decoded ++ [f] ++ fs)).2.length ≤
          m + (x.stream handle (t.decoded ++ [f])).2.length
      rw [List.length_append]
      omega
    rcases ih h₁ hrest with ⟨s', t', hover, hunlimited, h'⟩
    refine ⟨s', t', ?_, ?_, h'⟩
    · rw [Flow.forEach_cons, hpush]
      exact hover
    · rw [Flow.forEach_cons, push_unlimited]
      exact hunlimited

/-- One packet, where the queue has been drained before. -/
theorem onPacket_related (hsees : x.ffmpeg.SeesChannels x.C) (hi : x.pipeline.interleaved = true)
    (e : Event α) (h : InRoom x zero handle (4 * m) s t)
    (hm : t.fifo.length + (x.stream handle (t.decoded ++ e.frames)).2.length ≤
      m + (x.stream handle t.decoded).2.length) :
    Flow.Related (InRoom x zero handle (4 * m)) (EndsAlike x.C (4 * m))
      (OverSwr.onPacket x available zero e s) (onPacket x.unlimited e t) := by
  have hread := h.call .readFrame
  cases e with
  | other => exact hread.call .unref
  | rejected => exact hread.call .unref
  | accepted fs =>
    rcases forEach_push_inRoom hlimit hmemory fs hread hm with ⟨s₁, t₁, hover, hunlimited, h₁⟩
    simp only [OverSwr.onPacket, onPacket, hover, hunlimited, Flow.bind_next]
    rw [if_pos hi, if_pos (show x.unlimited.pipeline.interleaved = true from hi)]
    exact (drain_related hsees h₁).bind fun _ _ h₂ => h₂.call .unref

end interleaved
end simulation

/-- **A buffer of bounded size serves any stream** where the drain loop stands inside the packet
loop: no packet gives more than `B` samples, four times a block and these are under the limit,
and there is memory for twice as many. The run is the one with an unbounded queue, and the buffer
never has room for more than four times a block and `B` samples. -/
theorem run_overSwr_interleaved (x : Context α) (available : ℕ → Bool) (zero : α)
    (events : List (Event α)) (mem : ℤ → α) (handle : ℕ → ℤ) {B : ℕ}
    (hi : x.pipeline.interleaved = true) (hsees : x.ffmpeg.SeesChannels x.C)
    (hB : ∀ before e after, events = before ++ e :: after →
      (x.stream handle (allFrames (before ++ [e]))).2.length ≤
        (x.stream handle (allFrames before)).2.length + B)
    (hlimit : x.limit (4 * (x.F + B)) = true)
    (hmemory : ∀ size ≤ 2 * (x.F + B), x.memory available size = true) :
    Flow.Related (fun _ _ => False) (EndsAlike x.C (4 * (x.F + B)))
      (OverSwr.run x available zero events (OverSwr.init x zero mem handle))
      (run x.unlimited events (State.init x mem handle)) := by
  let P : List (Event α) → SwrState α → State α → Prop := fun pre s t =>
    InRoom x zero handle (4 * (x.F + B)) s t ∧ t.decoded = allFrames pre ∧
      Between x.unlimited handle pre t
  have hinit : P [] (OverSwr.init x zero mem handle) (State.init x mem handle) :=
    ⟨.init mem, rfl, Inv.init mem handle, fun _ => Nat.zero_le _⟩
  have hloop : Flow.Related (P events) (EndsAlike x.C (4 * (x.F + B)))
      (Flow.forEach (OverSwr.onPacket x available zero) events (OverSwr.init x zero mem handle))
      (Flow.forEach (onPacket x.unlimited) events (State.init x mem handle)) := by
    refine Flow.related_forEach_of_split P events (d := []) hinit ?_
    rintro pre e after s t hsplit ⟨h, hdecoded, hbetween⟩
    have hlen := hB pre e after hsplit
    have hle : t.fifo.length ≤ x.F := hbetween.2 hi
    rw [allFrames_concat, ← hdecoded] at hlen
    have hpacket := onPacket_related hlimit hmemory hsees hi e h (by omega)
    have hright := (onPacket_decoded x.unlimited e t).and (onPacket_between e hbetween)
    refine (hpacket.and_holds hright).imp ?_ fun _ _ hr => hr.1
    rintro s' t' ⟨h', hdecoded', hbetween'⟩
    exact ⟨h', by rw [hdecoded', hdecoded, allFrames_concat], hbetween'⟩
  refine hloop.bind fun s t hst => ?_
  rw [if_pos hi, if_pos (show x.unlimited.pipeline.interleaved = true from hi)]
  exact finish_related hsees hst.1

theorem monoContext_seesChannels : monoContext.ffmpeg.SeesChannels monoContext.C := by
  constructor <;> intro _ _ _ <;> rfl

/-- One packet with three samples, in a buffer for twenty. -/
theorem run_overSwr_interleaved_mono :
    ∃ r r', OverSwr.run monoContext (fun _ => true) 0 [.accepted [⟨3, fun _ => 0, id⟩]]
        (OverSwr.init monoContext 0 (fun _ => 0) fun _ => 0) = Flow.ret r ∧
      run monoContext.unlimited [.accepted [⟨3, fun _ => 0, id⟩]]
        (State.init monoContext (fun _ => 0) fun _ => 0) = Flow.ret r' ∧
      EndsAlike 1 20 r r' := by
  have hrelated := run_overSwr_interleaved monoContext (fun _ => true) 0
    [.accepted [⟨3, fun _ => 0, id⟩]] (fun _ => 0) (fun _ => 0) (B := 3) rfl
    monoContext_seesChannels ?_ (by decide) (by decide)
  · rcases hrelated.cases with ⟨_, _, _, _, hnever⟩ | hret | ⟨_, hhang⟩
    · exact hnever.elim
    · exact hret
    · exact absurd hhang (run_ne_hang _ (by decide) _ _)
  · refine (Segment.forall_eq_singleton_iff _ _).2 ?_
    decide

/-! ## The drain loop after the packet loop -/

section drained
variable (x : Context α) (available : ℕ → Bool) (zero : α) (handle : ℕ → ℤ)
  (frames : List (AVFrame α))

/-- No buffer has room for more samples of a channel. -/
def Context.maxRoom : ℕ := 2 * (intMax / 2 / x.fmt.bytesPerSample / x.C)

/-- There is room for the whole stream. -/
structure HasRoom : Prop where
  limit : x.limit (x.stream handle frames).2.length = true
  memory : ∀ size ≤ (x.stream handle frames).2.length, x.memory available size = true

/-- No frame gives more samples than half of what an `int` counts. -/
def FramesFit : Prop := ∀ before f after, frames = before ++ f :: after →
  (x.stream handle (before ++ [f])).2.length ≤ (x.stream handle before).2.length + intMax / 2

/-- Everything that has been pushed waits at the front of the buffer. -/
structure Waiting (s : SwrState α) (t : State α) : Prop where
  simulates : ∃ q, Simulates x zero handle s t q ∧ q.extent.index = 0 ∧
    q.extent.capacity ≤ x.maxRoom
  rooms : ∀ room ∈ s.rooms, room ≤ x.maxRoom
  length : t.fifo.length = (x.stream handle t.decoded).2.length
  limit : x.limit t.fifo.length = true
  unsent : handed t.log = []

/-- A frame has not been taken, and nothing has been handed to the encoder. -/
def Refused (r : ℤ × SwrState α) : Prop := r.1 = -18000 ∧ handed r.2.vars.log = []

/-- Both runs go on, or there is no room for the whole stream and a frame is refused. -/
def Taken (R : SwrState α → State α → Prop) (step : SwrStep α) (step' : Step α) : Prop :=
  (∃ s t, step = Flow.next s ∧ step' = Flow.next t ∧ R s t) ∨
    ¬ HasRoom x available handle frames ∧ ∃ r, step = Flow.ret r ∧ Refused r

variable {x available zero handle frames} {s : SwrState α} {t : State α}
  {R R' : SwrState α → State α → Prop}

theorem Taken.bind {step : SwrStep α} {step' : Step α} {body : SwrState α → SwrStep α}
    {body' : State α → Step α} (h : Taken x available handle frames R step step')
    (hbody : ∀ s t, R s t → Taken x available handle frames R' (body s) (body' t)) :
    Taken x available handle frames R' (step.bind body) (step'.bind body') := by
  rcases h with ⟨s, t, rfl, rfl, hst⟩ | ⟨hroom, r, rfl, hr⟩
  · exact hbody s t hst
  · exact Or.inr ⟨hroom, r, rfl, hr⟩

theorem Taken.imp {step : SwrStep α} {step' : Step α}
    (h : Taken x available handle frames R step step') (hR : ∀ s t, R s t → R' s t) :
    Taken x available handle frames R' step step' := by
  rcases h with ⟨s, t, hs, ht, hst⟩ | hr
  · exact Or.inl ⟨s, t, hs, ht, hR s t hst⟩
  · exact Or.inr hr

theorem Waiting.init (mem : ℤ → α) :
    Waiting x zero handle (OverSwr.init x zero mem handle) (State.init x mem handle) where
  simulates := ⟨_, Simulates.init mem, rfl, Nat.zero_le _⟩
  rooms := fun _ hroom => absurd hroom List.not_mem_nil
  length := rfl
  limit := decide_eq_true (Nat.zero_le _)
  unsent := rfl

theorem Waiting.call {c : Call α} (h : Waiting x zero handle s t) (hc : c.quiet = true) :
    Waiting x zero handle (s.call c) (t.call c) := by
  rcases h.simulates with ⟨q, hq, hindex, hcap⟩
  exact ⟨⟨q, hq.call c, hindex, hcap⟩, h.rooms, h.length, h.limit,
    (handed_quiet hc t.log).trans h.unsent⟩

theorem Waiting.inRoom (h : Waiting x zero handle s t) :
    InRoom x zero handle x.maxRoom s t := by
  rcases h.simulates with ⟨q, hq, -, hcap⟩
  exact ⟨⟨q, hq, hcap⟩, h.rooms⟩

/-- **A frame is taken** where there is room for the whole stream, and what has been taken is
under the limit. -/
theorem Waiting.push_taken (h : Waiting x zero handle s t) (hfit : FramesFit x handle frames)
    {f : AVFrame α} {rest : List (AVFrame α)} (hsplit : t.decoded ++ f :: rest = frames) :
    Taken x available handle frames
      (fun s' t' => Waiting x zero handle s' t' ∧ t'.decoded = t.decoded ++ [f])
      (OverSwr.push x available zero f s) (push x.unlimited f t) := by
  rcases h.simulates with ⟨q, hq, hindex, hcap⟩
  have hone := length_stream_concat (f := f) hq.feed
  have hint : q.extent.index + q.extent.count + (x.fedSamples t f).length ≤ intMax := by
    have hhalf := le_of_limit h.limit
    have hframe := hfit t.decoded f rest hsplit.symm
    have hcount : q.extent.count = t.fifo.length := q.length_eq.symm.trans hq.length_fifo
    have hmax : intMax = 2 ^ 31 - 1 := rfl
    omega
  have hpush := hq.push_holds available f hint
  cases hexchange : q.exchange x.limit (x.memory available) 0
      ((x.fedSamples t f).map (onChannels x.C)) with
  | none =>
    rw [hexchange] at hpush
    rcases hpush with ⟨s', hs', hlog⟩
    refine Or.inr ⟨fun hroom => ?_, _, hs', rfl, ?_⟩
    · have hle : q.items.length + ((x.fedSamples t f).map (onChannels x.C)).length ≤
          (x.stream handle frames).2.length := by
        have hpart := length_stream_le x handle (t.decoded ++ [f]) rest
        rw [List.append_assoc, List.singleton_append, hsplit, hone, ← h.length] at hpart
        rw [hq.length_fifo, List.length_map]
        exact hpart
      rcases Queue.exchange_zero_of_index hindex hle (fun _ hk => limit_of_le hroom.limit hk)
        hroom.memory with ⟨q', hsome⟩
      rw [hexchange] at hsome
      cases hsome
    · rw [hlog]
      exact hq.vars.log.handed_eq_nil h.unsent
  | some out =>
    obtain ⟨out, q'⟩ := out
    rw [hexchange] at hpush
    rcases hpush with ⟨s', hs', hq', hrooms⟩
    have hcap' : q'.extent.capacity ≤ x.maxRoom :=
      Queue.exchange_capacity_le hexchange (fun _ => of_decide_eq_true) hcap
    refine Or.inl ⟨s', _, hs', push_unlimited x f t, ⟨⟨q', hq', ?index, hcap'⟩,
      (hq'.inRoom hcap' h.rooms hrooms).rooms, ?length, ?limit, ?unsent⟩, rfl⟩
    case index => exact Queue.exchange_zero_index hindex hexchange
    case length =>
      change (t.fifo ++ x.fedSamples t f).length = (x.stream handle (t.decoded ++ [f])).2.length
      rw [List.length_append, hone, h.length]
    case limit =>
      change x.limit (t.fifo ++ x.fedSamples t f).length = true
      rcases eq_or_ne (x.fedSamples t f) [] with hnil | hne
      · rw [hnil, List.append_nil]
        exact h.limit
      · have hlimit := Queue.limit_of_exchange_zero hindex (by simpa using hne) hexchange
        rwa [hq.length_fifo, List.length_map, ← List.length_append] at hlimit
    case unsent =>
      change handed (t.log ++ [.push (x.fedSamples t f)]) = []
      rw [handed_push]
      exact h.unsent

variable (available) in
/-- The frames of a packet. -/
theorem forEach_push_taken (hfit : FramesFit x handle frames) {later : List (AVFrame α)}
    (fs : List (AVFrame α)) (h : Waiting x zero handle s t)
    (hsplit : t.decoded ++ (fs ++ later) = frames) :
    Taken x available handle frames
      (fun s' t' => Waiting x zero handle s' t' ∧ t'.decoded = t.decoded ++ fs)
      (Flow.forEach (OverSwr.push x available zero) fs s)
      (Flow.forEach (push x.unlimited) fs t) := by
  induction fs generalizing s t with
  | nil => exact Or.inl ⟨s, t, rfl, rfl, h, (List.append_nil _).symm⟩
  | cons f fs ih =>
    refine (h.push_taken hfit hsplit).bind fun s₁ t₁ h₁ => ?_
    have hrest : t₁.decoded ++ (fs ++ later) = frames := by
      rw [h₁.2, List.append_assoc]
      exact hsplit
    refine (ih h₁.1 hrest).imp fun s₂ t₂ h₂ => ⟨h₂.1, ?_⟩
    rw [h₂.2, h₁.2, List.append_assoc, List.singleton_append]

/-- One packet. -/
theorem onPacket_taken (hi : x.pipeline.interleaved = false) (hfit : FramesFit x handle frames)
    {later : List (AVFrame α)} (e : Event α) (h : Waiting x zero handle s t)
    (hsplit : t.decoded ++ (e.frames ++ later) = frames) :
    Taken x available handle frames
      (fun s' t' => Waiting x zero handle s' t' ∧ t'.decoded = t.decoded ++ e.frames)
      (OverSwr.onPacket x available zero e s) (onPacket x.unlimited e t) := by
  have hread := h.call (c := .readFrame) rfl
  cases e with
  | other => exact Or.inl ⟨_, _, rfl, rfl, hread.call rfl, (List.append_nil _).symm⟩
  | rejected => exact Or.inl ⟨_, _, rfl, rfl, hread.call rfl, (List.append_nil _).symm⟩
  | accepted fs =>
    have hi' : x.unlimited.pipeline.interleaved = false := hi
    have hpush := (forEach_push_taken available hfit fs hread hsplit).bind
      fun s₁ t₁ h₁ => Or.inl ⟨s₁, t₁, rfl, rfl, h₁⟩
    simp only [OverSwr.onPacket, onPacket, hi, hi', Bool.false_eq_true, if_false]
    exact hpush.bind fun s₂ t₂ h₂ => Or.inl ⟨_, _, rfl, rfl, h₂.1.call rfl, h₂.2⟩

variable (available zero) in
/-- The packets of the input. -/
theorem forEach_onPacket_taken (hi : x.pipeline.interleaved = false)
    (hfit : FramesFit x handle frames) (events : List (Event α)) (h : Waiting x zero handle s t)
    (hsplit : t.decoded ++ allFrames events = frames) :
    Taken x available handle frames
      (fun s' t' => Waiting x zero handle s' t' ∧ t'.decoded = frames)
      (Flow.forEach (OverSwr.onPacket x available zero) events s)
      (Flow.forEach (onPacket x.unlimited) events t) := by
  induction events generalizing s t with
  | nil => exact Or.inl ⟨s, t, rfl, rfl, h, by simpa [allFrames] using hsplit⟩
  | cons e events ih =>
    refine (onPacket_taken hi hfit e h hsplit).bind fun s₁ t₁ h₁ => ih h₁.1 ?_
    rw [h₁.2, List.append_assoc]
    exact hsplit

end drained

/-- **The whole stream has to fit** where the drain loop comes after the packet loop: a stream
that there is room for is processed as over an unbounded queue, and a stream longer than the
limit fails with nothing handed to the encoder. -/
theorem run_overSwr_drained (x : Context α) (available : ℕ → Bool) (zero : α)
    (events : List (Event α)) (mem : ℤ → α) (handle : ℕ → ℤ)
    (hi : x.pipeline.interleaved = false) (hsees : x.ffmpeg.SeesChannels x.C)
    (hfit : FramesFit x handle (allFrames events)) :
    (HasRoom x available handle (allFrames events) →
      Flow.Related (fun _ _ => False) (EndsAlike x.C x.maxRoom)
        (OverSwr.run x available zero events (OverSwr.init x zero mem handle))
        (run x.unlimited events (State.init x mem handle))) ∧
    (x.limit (x.stream handle (allFrames events)).2.length = false →
      ∃ r, OverSwr.run x available zero events (OverSwr.init x zero mem handle) = Flow.ret r ∧
        Refused r) := by
  have hni : ¬ x.pipeline.interleaved = true := by simp [hi]
  have hloop := forEach_onPacket_taken available zero hi hfit events
    (Waiting.init mem) rfl
  refine ⟨fun hroom => ?room, fun hlong => ?long⟩
  case room =>
    rcases hloop with ⟨s, t, hs, ht, hw, -⟩ | ⟨hnot, -⟩
    · rw [OverSwr.run, run, hs, ht, Flow.bind_next, Flow.bind_next, if_neg hni,
        if_neg (show ¬ x.unlimited.pipeline.interleaved = true from hni)]
      exact (drain_related hsees hw.inRoom).bind fun _ _ h => finish_related hsees h
    · exact absurd hroom hnot
  case long =>
    rcases hloop with ⟨s, t, -, -, hw, hdecoded⟩ | ⟨-, r, hr, hrefused⟩
    · have hlimit := hw.limit
      rw [hw.length, hdecoded, hlong] at hlimit
      cases hlimit
    · exact ⟨r, by rw [OverSwr.run, hr, Flow.bind_ret], hrefused⟩

/-- Mono, for a script that does not change the samples. -/
def monoGradient : Context ℚ where
  pipeline := audioGradient (fun _ _ => 1) 48000
  ffmpeg :=
    { convertOk := fun _ => true
      fillOk := fun _ => true
      sendFrameOk := fun _ => true
      packets := fun _ => []
      rescaleTs := id
      writeOk := fun _ => true
      trailerOk := fun _ => true }
  fmt := .fltp
  C := 1
  streamIndex := 0
  F := 1024

theorem monoGradient_seesChannels : monoGradient.ffmpeg.SeesChannels monoGradient.C := by
  constructor <;> intro _ _ _ <;> rfl

theorem length_stream_monoGradient (n : ℕ) :
    (monoGradient.stream (fun _ => 0) [⟨n, fun _ => 0, fun _ => 0⟩]).2.length = n := by
  simp [Context.stream, Context.feedStep, monoGradient, audioGradient, feedFrame]

/-- A packet with three hundred million samples. -/
theorem run_overSwr_drained_mono :
    ∃ r, OverSwr.run monoGradient (fun _ => true) 0
        [.accepted [⟨300000000, fun _ => 0, fun _ => 0⟩]]
        (OverSwr.init monoGradient 0 (fun _ => 0) fun _ => 0) = Flow.ret r ∧ Refused r := by
  have hframes : allFrames [Event.accepted [(⟨300000000, fun _ => 0, fun _ => 0⟩ : AVFrame ℚ)]] =
      [⟨300000000, fun _ => 0, fun _ => 0⟩] := by simp [allFrames, Event.frames]
  refine (run_overSwr_drained monoGradient (fun _ => true) 0
    [.accepted [⟨300000000, fun _ => 0, fun _ => 0⟩]] (fun _ => 0) (fun _ => 0) rfl
    monoGradient_seesChannels ?_).2 ?_
  · rw [hframes]
    refine (Segment.forall_eq_singleton_iff _ _).2 ?_
    rw [List.nil_append, length_stream_monoGradient]
    decide
  · rw [hframes, length_stream_monoGradient]
    decide

end AudioCrash.Audio
