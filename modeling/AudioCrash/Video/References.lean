import AudioCrash.Lib.RefCount
import AudioCrash.Lib.Script
import AudioCrash.Video.Live
import Mathlib.Algebra.Order.Group.Multiset
import Mathlib.Tactic.Abel

/-!
# The references of the frames

A frame of FFmpeg does not hold a picture but references to the buffers of one, which are counted
and freed with the last reference. `av_frame_ref` and the filter graph's sink overwrite the
references of the frame that they fill, `av_frame_unref` gives them back, and the buffer source
takes them over. Here `VideoThubmnail::run` is modelled once more, with frames as lists of
buffers on a counted heap.

What FFmpeg does inside is open: between the calls the decoder, the encoders and the filters do
what they like with references of their own, and they may keep references to the buffers of a frame
that they return or are given. A run that uses a buffer after it
has been freed returns `none`.

## Main definitions

* `Refs.State`, `Refs.World` — the state, and what FFmpeg does.
* `Refs.avFrameUnref`, `Refs.avFrameRef`, `Refs.receiveFrame`, `Refs.addFrame`,
  `Refs.getFrame` — the calls that move references.
* `Refs.run`, `Refs.destroy` — the run, and the destructor.
* `Refs.Sound` — every buffer is referred to as often as it is counted.
* `Refs.run_refines` — the pictures are those of the model without references.
* `Refs.run_released` — no use after free, and no leak.
-/

namespace AudioCrash.Video.Refs

open RefCount

/-! ## The model -/

/-- The frames of `run`, but for `rotate_frame`, which stays empty. -/
inductive Name where
  | decode | ref | resize
  deriving DecidableEq, Repr

/-- The state of `run`. A frame is the list of the buffers it refers to, empty without a
picture. -/
structure State where
  heap : Heap Picture
  frames : Name → List ℕ
  /-- The frames that wait in the filter graph. -/
  queue : List (List ℕ)
  /-- The references inside of FFmpeg. -/
  held : List ℕ
  encode : Pointer
  needWrite : ℕ → Bool
  haveWrite : ℕ
  received : ℕ
  log : List Call

/-- What FFmpeg does, in any state. -/
structure World where
  /-- What it does with its own references. -/
  uses : State → List (Use Picture)
  /-- A new picture has this many buffers, and one more. -/
  buffers : State → ℕ
  /-- Whether it keeps references to the buffers of a frame. -/
  keeps : State → Bool
  /-- Whether the buffer source has taken the frame when it fails. -/
  taken : State → Bool
  /-- Whether a filter changes a picture in place. -/
  inPlace : State → Bool

/-- A statement goes on, or returns a code, or `none` after a use of a freed buffer. -/
abbrev Step := Flow (Option ℤ × State)

namespace State

def call (s : State) (c : Call) : State := { s with log := s.log ++ [c] }

def setFrame (n : Name) (f : List ℕ) (s : State) : State :=
  { s with frames := Function.update s.frames n f }

/-- `*encode_frame`. -/
def encodeFrame (s : State) : List ℕ :=
  match s.encode with
  | .null => []
  | .ref => s.frames .ref
  | .resize => s.frames .resize

@[simp] theorem call_heap (s : State) (c : Call) : (s.call c).heap = s.heap := rfl
@[simp] theorem call_frames (s : State) (c : Call) : (s.call c).frames = s.frames := rfl
@[simp] theorem call_queue (s : State) (c : Call) : (s.call c).queue = s.queue := rfl
@[simp] theorem call_held (s : State) (c : Call) : (s.call c).held = s.held := rfl
@[simp] theorem setFrame_heap (n : Name) (f : List ℕ) (s : State) :
    (s.setFrame n f).heap = s.heap := rfl
@[simp] theorem setFrame_queue (n : Name) (f : List ℕ) (s : State) :
    (s.setFrame n f).queue = s.queue := rfl
@[simp] theorem setFrame_held (n : Name) (f : List ℕ) (s : State) :
    (s.setFrame n f).held = s.held := rfl
@[simp] theorem setFrame_self (n : Name) (f : List ℕ) (s : State) :
    (s.setFrame n f).frames n = f := Function.update_self _ _ _
theorem setFrame_other {n n' : Name} (h : n' ≠ n) (f : List ℕ) (s : State) :
    (s.setFrame n f).frames n' = s.frames n' := Function.update_of_ne h _ _

end State

section run
variable (x : Context) (y : World)

/-- The heap after an operation on it. -/
def onHeap (s : State) : Option (Heap Picture) → Step State
  | none => Flow.ret (none, s)
  | some heap => Flow.next { s with heap := heap }

/-- FFmpeg at work on its own references. -/
def work (s : State) : Step State :=
  match s.heap.uses (y.uses s) s.held with
  | none => Flow.ret (none, s)
  | some (heap, held) => Flow.next { s with heap := heap, held := held }

/-- FFmpeg keeps references to the buffers of a frame, or does not. -/
def keep (f : List ℕ) (s : State) : Step State :=
  if y.keeps s then
    (onHeap s (s.heap.refAll f)).bind fun s => Flow.next { s with held := f ++ s.held }
  else Flow.next s

/-- `av_frame_unref`. -/
def avFrameUnref (n : Name) (s : State) : Step State :=
  (onHeap s (s.heap.unrefAll (s.frames n))).bind fun s => Flow.next (s.setFrame n [])

/-- `av_frame_ref`, for the frame received last. What `dst` has referred to is overwritten. -/
def avFrameRef (dst src : Name) (s : State) : Step State :=
  if x.ffmpeg.refOk (s.received - 1) then
    (onHeap s (s.heap.refAll (s.frames src))).bind fun s =>
    Flow.next (s.setFrame dst (s.frames src))
  else Flow.next (s.setFrame dst [])

/-- `avcodec_receive_frame(av_codec_ctx, decode_frame)`, which gives a frame. -/
def receiveFrame (s : State) : Step State :=
  (avFrameUnref .decode s).bind fun s =>
  (work y s).bind fun s =>
  let made := s.heap.createAll ⟨s.received, false⟩ (y.buffers s + 1)
  let s := { s with heap := made.1, received := s.received + 1 }
  keep y made.2 (s.setFrame .decode made.2)

/-- The call of `avcodec_receive_frame` that gives no frame: `decode_frame` has been emptied. -/
def receiveNothing (s : State) : Step State := (avFrameUnref .decode s).bind (work y)

/-- `av_buffersrc_add_frame(resize_buffersrc_ctx, ref_frame)`. A frame without buffers is copied,
which fails; otherwise its references move to the filter graph, also where that fails later. -/
def addFrame (s : State) : Step State :=
  if s.frames .ref = [] then Flow.ret (some (-540), s)
  else
    (work y s).bind fun s =>
    if !x.ffmpeg.addFrameOk s.log then
      (if y.taken s then avFrameUnref .ref s else Flow.next s).bind fun s =>
      Flow.ret (some (-540), s)
    else
      let s := { s.call .addFrame with queue := s.queue ++ [s.frames .ref] }
      Flow.next (s.setFrame .ref [])

/-- A frame of the graph comes out of the filters with `picture`, in its own buffers or in new
ones. What `resize_frame` has referred to is overwritten. -/
def passFilters (picture : Picture) (f : List ℕ) (s : State) : Step State :=
  if y.inPlace s && f.all fun i => s.heap.isWritable i then
    Flow.next ({ s with heap := s.heap.writeAll picture f }.setFrame .resize f)
  else
    let made := s.heap.createAll picture (y.buffers s + 1)
    (onHeap { s with heap := made.1 } (made.1.unrefAll f)).bind fun s =>
    Flow.next (s.setFrame .resize made.2)

/-- `av_buffersink_get_frame(resize_buffersink_ctx, resize_frame)`, for the oldest picture in the
graph. -/
def getFrame (s : State) : Step State :=
  (work y s).bind fun s =>
  if !x.ffmpeg.getFrameOk s.log then Flow.ret (some (-550), s)
  else
    match s.queue with
    | [] => Flow.ret (some (-550), s)
    | f :: queue =>
      let s := { s.call .getFrame with queue := queue }
      match f.head?.bind s.heap.read with
      | none => Flow.ret (none, s)
      | some picture => passFilters y { picture with filtered := true } f s

/-- `encode_frame = ref_frame`, and the way of the picture through the filters. -/
def filterFrame (s : State) : Step State :=
  let s := { s with encode := .ref }
  if x.needResize then
    (addFrame x y s).bind fun s =>
    (getFrame x y s).bind fun s =>
    Flow.next { s with encode := .resize }
  else Flow.next s

/-- `write(output_paths[idx], encode_frame)`, which reads the buffers of the frame, and the two
counters. -/
def writeIndex (place : WithTop ℕ) (idx : ℕ) (s : State) : Step State :=
  let frame := s.encodeFrame
  if frame.all fun i => s.heap.count i ≠ 0 then
    let picture := frame.head?.map s.heap.data
    let s := s.call (.write ⟨idx, place, picture, write (x.ffmpeg.writeOk s.log) picture⟩)
    (work y s).bind fun s =>
    (keep y frame s).bind fun s =>
    Flow.next { s with
      needWrite := Function.update s.needWrite idx false
      haveWrite := s.haveWrite + 1 }
  else Flow.ret (none, s)

/-- One iteration of the loop over the indices, for a packet's time; the flag is `process`. -/
def tryIndex (pts : ℤ) (idx : ℕ) (p : Bool × State) : Step (Bool × State) :=
  let (process, s) := p
  if s.needWrite idx && x.due pts (x.tm idx) then
    (if !process then filterFrame x y s else Flow.next s).bind fun s =>
    let place : ℕ := s.received - 1
    (writeIndex x y place idx s).bind fun s =>
    (avFrameUnref .resize s).bind fun s =>
    Flow.next (true, s)
  else Flow.next (process, s)

/-- One iteration of the loop over the decoded frames of a packet. -/
def onFrame (pts : ℤ) (_f : Frame) (s : State) : Step State :=
  (receiveFrame y s).bind fun s =>
  (avFrameUnref .ref s).bind fun s =>
  (avFrameRef x .ref .decode s).bind fun s =>
  (Flow.forEach (tryIndex x y pts) (List.range x.tms.length) (false, s)).bind fun p =>
  Flow.next p.2

/-- One iteration of the loop over the packets. -/
def onPacket (event : Event) (s : State) : Step State :=
  let s := s.call .readFrame
  match event with
  | .other => Flow.next (s.call .unref)
  | .rejected _ => (work y s).bind fun s => Flow.ret (some (-600), s)
  | .accepted pts frames =>
    (work y s).bind fun s =>
    (Flow.forEach (onFrame x y pts) frames s).bind fun s =>
    (receiveNothing y s).bind fun s =>
    Flow.next (s.call .unref)

/-- One iteration of the loop over the indices after the end of the stream. -/
def fallbackIndex (idx : ℕ) (s : State) : Step State :=
  if s.needWrite idx then writeIndex x y ⊤ idx s else Flow.next s

/-- The indices that no packet has served. -/
def fallback (s : State) : Step State :=
  (filterFrame x y s).bind fun s =>
  (Flow.forEach (fallbackIndex x y) (List.range x.tms.length) s).bind fun s =>
  avFrameUnref .resize s

/-- The state before the seek. -/
def State.init : State where
  heap := ⟨fun _ => 0, fun _ => ⟨0, false⟩, 0⟩
  frames := fun _ => []
  queue := []
  held := []
  encode := .null
  needWrite := fun _ => true
  haveWrite := 0
  received := 0
  log := []

/-- `run` from `/// 3. Decode A Stream` on. -/
def run : Step State :=
  match x.events with
  | none => Flow.ret (some (-510), State.init)
  | some events =>
    (Flow.forEachWhile (fun s => decide (s.haveWrite < x.tms.length)) (onPacket x y) events
      State.init).bind fun s =>
    (if s.haveWrite < x.tms.length then fallback x y s else Flow.next s).bind fun s =>
    (avFrameUnref .ref s).bind fun s =>
    Flow.ret (some 0, s)

/-- `~VideoThubmnail`: the input is closed, which frees the codec context of the stream with what
the decoder refers to; then the frames are freed, and the filter graph with the frames in it. -/
def destroy (s : State) : Step State :=
  (work y s).bind fun s =>
  (avFrameUnref .decode s).bind fun s =>
  (avFrameUnref .ref s).bind fun s =>
  (avFrameUnref .resize s).bind fun s =>
  (onHeap s (s.heap.unrefAll s.queue.flatten)).bind fun s =>
  work y { s with queue := [] }

end run

/-! ## Every reference is counted -/

/-- The references of the frames, and of those in the filter graph. -/
def State.owned (s : State) : Multiset ℕ :=
  ↑(s.frames .decode) + ↑(s.frames .ref) + ↑(s.frames .resize) + ↑s.queue.flatten

/-- Every buffer is counted as often as it is referred to. -/
def Sound (s : State) : Prop := Balanced s.heap (↑s.held + s.owned)

/-- What a frame shows: all of its buffers hold the picture. -/
def Shows (heap : Heap Picture) (f : List ℕ) : Slot → Prop
  | none => f = []
  | some picture => f ≠ [] ∧ ∀ i ∈ f, heap.data i = picture

theorem Shows.congr {heap heap' : Heap Picture} {f : List ℕ} {slot : Slot}
    (h : Shows heap f slot) (hdata : ∀ i ∈ f, heap'.data i = heap.data i) :
    Shows heap' f slot := by
  cases slot with
  | none => exact h
  | some picture => exact ⟨h.1, fun i hi => (hdata i hi).trans (h.2 i hi)⟩

theorem Shows.head? {heap : Heap Picture} {f : List ℕ} {slot : Slot} (h : Shows heap f slot) :
    f.head?.map heap.data = slot := by
  cases slot with
  | none =>
    rw [show f = [] from h]
    rfl
  | some picture =>
    cases f with
    | nil => exact absurd rfl h.1
    | cons i f =>
      rw [List.head?_cons, Option.map_some, h.2 i List.mem_cons_self]

section specs
variable {x : Context} {y : World} {s : State} {n : Name} {f : List ℕ}

theorem owned_setFrame (s : State) (n : Name) (f : List ℕ) :
    s.owned + ↑f = ↑(s.frames n) + (s.setFrame n f).owned := by
  cases n with
  | decode =>
    simp only [State.owned, State.setFrame_self, State.setFrame_queue,
      State.setFrame_other (show Name.ref ≠ .decode by decide),
      State.setFrame_other (show Name.resize ≠ .decode by decide)]
    abel
  | ref =>
    simp only [State.owned, State.setFrame_self, State.setFrame_queue,
      State.setFrame_other (show Name.decode ≠ .ref by decide),
      State.setFrame_other (show Name.resize ≠ .ref by decide)]
    abel
  | resize =>
    simp only [State.owned, State.setFrame_self, State.setFrame_queue,
      State.setFrame_other (show Name.decode ≠ .resize by decide),
      State.setFrame_other (show Name.ref ≠ .resize by decide)]
    abel

theorem mem_owned {i : ℕ} (hi : i ∈ s.frames n) : i ∈ s.owned := by
  have h := owned_setFrame s n []
  rw [Multiset.coe_nil, Multiset.add_zero] at h
  rw [h]
  exact Multiset.mem_add.2 (Or.inl (Multiset.mem_coe.2 hi))

theorem flatten_mem_owned {i : ℕ} (hi : i ∈ s.queue.flatten) : i ∈ s.owned :=
  Multiset.mem_add.2 (Or.inr (Multiset.mem_coe.2 hi))

end specs

/-! ## What the calls keep -/

/-- But for the frames `ns`, the frames and the variables are as they were. -/
structure Same (ns : List Name) (s s' : State) : Prop where
  frames : ∀ n ∉ ns, s'.frames n = s.frames n
  data : ∀ n ∉ ns, ∀ i ∈ s.frames n, s'.heap.data i = s.heap.data i
  queue : s'.queue = s.queue
  queueData : ∀ i ∈ s.queue.flatten, s'.heap.data i = s.heap.data i
  encode : s'.encode = s.encode
  needWrite : s'.needWrite = s.needWrite
  haveWrite : s'.haveWrite = s.haveWrite
  received : s'.received = s.received
  log : s'.log = s.log

/-- After a call that concerns the frames `ns` only. -/
structure Keeps (ns : List Name) (s s' : State) : Prop extends Same ns s s' where
  sound : Sound s'

section keeps
variable {x : Context} {y : World} {s s' s'' : State} {n : Name} {ns ns' : List Name} {f : List ℕ}

theorem Same.refl : Same ns s s :=
  ⟨fun _ _ => rfl, fun _ _ _ _ => rfl, rfl, fun _ _ => rfl, rfl, rfl, rfl, rfl, rfl⟩

theorem Same.trans (h : Same ns s s') (h' : Same ns s' s'') : Same ns s s'' where
  frames n hn := (h'.frames n hn).trans (h.frames n hn)
  data n hn i hi := by
    rw [h'.data n hn i (by rwa [h.frames n hn]), h.data n hn i hi]
  queue := h'.queue.trans h.queue
  queueData i hi := by
    rw [h'.queueData i (by rwa [h.queue]), h.queueData i hi]
  encode := h'.encode.trans h.encode
  needWrite := h'.needWrite.trans h.needWrite
  haveWrite := h'.haveWrite.trans h.haveWrite
  received := h'.received.trans h.received
  log := h'.log.trans h.log

/-- One frame more has been received. -/
theorem Same.receive (h : Same ns s s') :
    Same ns { s with received := s.received + 1 } { s' with received := s'.received + 1 } :=
  { h with received := congrArg (· + 1) h.received }

theorem Same.call (h : Same ns s s') (c : Call) : Same ns (s.call c) (s'.call c) :=
  { h with log := congrArg (· ++ [c]) h.log }

theorem Same.mono (h : Same ns s s') (hns : ns ⊆ ns') : Same ns' s s' :=
  { h with
    frames := fun n hn => h.frames n fun hmem => hn (hns hmem)
    data := fun n hn => h.data n fun hmem => hn (hns hmem) }

/-- A frame that is not concerned shows what it has shown. -/
theorem Same.shows (h : Same ns s s') (hn : n ∉ ns) {slot : Slot}
    (hshows : Shows s.heap (s.frames n) slot) : Shows s'.heap (s'.frames n) slot := by
  rw [h.frames n hn]
  exact hshows.congr (h.data n hn)

theorem Same.encodeFrame (h : Same [] s s') : s'.encodeFrame = s.encodeFrame := by
  rw [State.encodeFrame, State.encodeFrame, h.encode]
  cases s.encode with
  | null => rfl
  | ref => exact h.frames _ List.not_mem_nil
  | resize => exact h.frames _ List.not_mem_nil

theorem Same.owned (h : Same [] s s') : s'.owned = s.owned := by
  simp only [State.owned, h.queue, h.frames _ List.not_mem_nil]

theorem Keeps.trans (h : Keeps ns s s') (h' : Keeps ns s' s'') : Keeps ns s s'' :=
  ⟨h.toSame.trans h'.toSame, h'.sound⟩

theorem Keeps.mono (h : Keeps ns s s') (hns : ns ⊆ ns') : Keeps ns' s s' :=
  ⟨h.toSame.mono hns, h.sound⟩

/-- FFmpeg leaves the buffers of the frames there, and as they are. -/
theorem Sound.work (hs : Sound s) (y : World) :
    ∃ s', Refs.work y s = Flow.next s' ∧ Keeps [] s s' := by
  rcases Balanced.uses hs (y.uses s) with ⟨heap, held, heq, hb, hdata⟩
  refine ⟨{ s with heap := heap, held := held }, ?_, ⟨fun _ _ => rfl,
    fun n _ i hi => hdata i (mem_owned hi), rfl, fun i hi => hdata i (flatten_mem_owned hi),
    rfl, rfl, rfl, rfl, rfl⟩, hb⟩
  rw [Refs.work, heq]

theorem Sound.keep (hs : Sound s) (y : World) (hf : ∀ i ∈ f, i ∈ s.owned) :
    ∃ s', Refs.keep y f s = Flow.next s' ∧ Keeps [] s s' := by
  rw [Refs.keep]
  split_ifs
  · rcases Balanced.refAll hs fun i hi => Multiset.mem_add.2 (Or.inr (hf i hi)) with
      ⟨heap, heq, hb, hdata⟩
    rw [heq, onHeap, Flow.bind_next]
    rw [← add_assoc, Multiset.coe_add] at hb
    exact ⟨_, rfl, ⟨fun _ _ => rfl, fun _ _ i _ => congrFun hdata i, rfl,
      fun i _ => congrFun hdata i, rfl, rfl, rfl, rfl, rfl⟩, hb⟩
  · exact ⟨s, rfl, Same.refl, hs⟩

/-- A frame that is empty may be filled. -/
theorem Sound.setFrame {heap : Heap Picture} (hempty : s.frames n = [])
    (hb : Balanced heap (↑f + (↑s.held + s.owned)))
    (hdata : ∀ i ∈ s.owned, heap.data i = s.heap.data i) :
    Keeps [n] s ({ s with heap := heap }.setFrame n f) where
  sound := by
    have howned := owned_setFrame s n f
    rw [hempty, Multiset.coe_nil, Multiset.zero_add] at howned
    rw [add_left_comm, add_comm (f : Multiset ℕ), howned] at hb
    exact hb
  frames n' hn := State.setFrame_other (fun h => hn (List.mem_singleton.2 h)) _ _
  data n' _ i hi := hdata i (mem_owned hi)
  queue := rfl
  queueData i hi := hdata i (flatten_mem_owned hi)
  encode := rfl
  needWrite := rfl
  haveWrite := rfl
  received := rfl
  log := rfl

theorem Sound.avFrameUnref (hs : Sound s) (n : Name) :
    ∃ s', Refs.avFrameUnref n s = Flow.next s' ∧ Keeps [n] s s' ∧ s'.frames n = [] := by
  have howned := owned_setFrame s n []
  rw [Multiset.coe_nil, Multiset.add_zero] at howned
  have hb : Balanced s.heap (↑(s.frames n) + (↑s.held + (s.setFrame n []).owned)) := by
    rw [add_left_comm, ← howned]
    exact hs
  rcases hb.unrefAll with ⟨heap, heq, hb', hdata⟩
  rw [Refs.avFrameUnref, heq, onHeap, Flow.bind_next]
  refine ⟨_, rfl, ⟨⟨?_, fun _ _ i _ => congrFun hdata i, rfl, fun i _ => congrFun hdata i, rfl,
    rfl, rfl, rfl, rfl⟩, hb'⟩, State.setFrame_self n [] _⟩
  intro n' hn
  exact State.setFrame_other (fun h => hn (List.mem_singleton.2 h)) _ _

theorem Sound.avFrameRef (hs : Sound s) (x : Context) (src : Name) {dst : Name}
    (hempty : s.frames dst = []) :
    ∃ s', Refs.avFrameRef x dst src s = Flow.next s' ∧ Keeps [dst] s s' ∧
      ∀ slot, Shows s.heap (s.frames src) slot →
        Shows s'.heap (s'.frames dst)
          (if x.ffmpeg.refOk (s.received - 1) then slot else none) := by
  rw [Refs.avFrameRef]
  split_ifs with hok
  · rcases Balanced.refAll hs fun i hi => Multiset.mem_add.2 (Or.inr (mem_owned hi)) with
      ⟨heap, heq, hb, hdata⟩
    rw [heq, onHeap, Flow.bind_next]
    refine ⟨_, rfl, Sound.setFrame hempty hb fun i _ => congrFun hdata i, fun slot hshows => ?_⟩
    rw [State.setFrame_self]
    exact hshows.congr fun i _ => congrFun hdata i
  · refine ⟨_, rfl, Sound.setFrame hempty ?_ fun _ _ => rfl, fun slot _ =>
      State.setFrame_self _ _ _⟩
    rwa [Multiset.coe_nil, Multiset.zero_add]

/-- New buffers for a frame that is empty. -/
theorem Sound.createAll (hs : Sound s) (hempty : s.frames n = []) (picture : Picture) (k : ℕ) :
    ∃ heap f, s.heap.createAll picture (k + 1) = (heap, f) ∧
      Keeps [n] s ({ s with heap := heap }.setFrame n f) ∧ Shows heap f (some picture) := by
  rcases Balanced.createAll hs picture (k + 1) with ⟨hb, hnew, hold⟩
  exact ⟨_, _, rfl, Sound.setFrame hempty hb fun i hi =>
    hold i (hs.lt_next (Multiset.mem_add.2 (Or.inr hi))), List.cons_ne_nil _ _, hnew⟩

theorem Sound.receiveFrame (hs : Sound s) (y : World) :
    ∃ s', Refs.receiveFrame y s = Flow.next s' ∧
      Keeps [.decode] { s with received := s.received + 1 } s' ∧
      Shows s'.heap (s'.frames .decode) (some ⟨s.received, false⟩) := by
  rcases hs.avFrameUnref .decode with ⟨s₁, heq₁, hk₁, hempty₁⟩
  rcases hk₁.sound.work y with ⟨s₂, heq₂, hk₂⟩
  have hempty₂ : s₂.frames .decode = [] := by rw [hk₂.frames _ (by simp), hempty₁]
  rcases hk₂.sound.createAll hempty₂ ⟨s₂.received, false⟩ (y.buffers s₂) with
    ⟨heap, f, heq₃, hk₃, hshows⟩
  have hk : Keeps [.decode] s _ := (hk₁.trans (hk₂.mono (List.nil_subset _))).trans hk₃
  have hreceive : Keeps [.decode] { s with received := s.received + 1 }
      (({ s₂ with heap := heap, received := s₂.received + 1 } : State).setFrame .decode f) :=
    ⟨hk.toSame.receive, hk.sound⟩
  rcases hreceive.sound.keep y fun i hi => mem_owned (n := .decode) (by
      rwa [State.setFrame_self]) with ⟨s₄, heq₄, hk₄⟩
  refine ⟨s₄, ?_, hreceive.trans (hk₄.mono (List.nil_subset _)), ?_⟩
  · rw [Refs.receiveFrame, heq₁, Flow.bind_next, heq₂, Flow.bind_next]
    simp only [heq₃]
    exact heq₄
  · rw [← hk₁.received, ← hk₂.received]
    refine hk₄.shows List.not_mem_nil ?_
    rw [State.setFrame_self]
    exact hshows

theorem Sound.receiveNothing (hs : Sound s) (y : World) :
    ∃ s', Refs.receiveNothing y s = Flow.next s' ∧ Keeps [.decode] s s' := by
  rcases hs.avFrameUnref .decode with ⟨s₁, heq₁, hk₁, -⟩
  rcases hk₁.sound.work y with ⟨s₂, heq₂, hk₂⟩
  refine ⟨s₂, ?_, hk₁.trans (hk₂.mono (List.nil_subset _))⟩
  rw [Refs.receiveNothing, heq₁, Flow.bind_next, heq₂]

/-! ## The filter graph -/

/-- The queue and a frame exchange what they refer to. -/
theorem owned_queue (s : State) (queue : List (List ℕ)) :
    ({ s with queue := queue } : State).owned + ↑s.queue.flatten = s.owned + ↑queue.flatten := by
  simp only [State.owned]
  abel

/-- The frame goes into the graph, or the graph refuses it. -/
theorem Sound.addFrame (hs : Sound s) (x : Context) (y : World) (hne : s.frames .ref ≠ [])
    (hqueue : s.queue = []) {slot : Slot} (hshows : Shows s.heap (s.frames .ref) slot) :
    (x.ffmpeg.addFrameOk s.log = false ∧ ∃ s', Refs.addFrame x y s = Flow.ret (some (-540), s') ∧
        Keeps [.ref] s s') ∨
      (x.ffmpeg.addFrameOk s.log = true ∧ ∃ s' f, Refs.addFrame x y s = Flow.next s' ∧
        Keeps [.ref] { s.call .addFrame with queue := [f] } s' ∧ s'.frames .ref = [] ∧
        Shows s'.heap f slot) := by
  rcases hs.work y with ⟨s₁, heq₁, hk₁⟩
  rw [Refs.addFrame, if_neg hne, heq₁, Flow.bind_next, hk₁.log]
  cases hok : x.ffmpeg.addFrameOk s.log with
  | false =>
    refine Or.inl ⟨rfl, ?_⟩
    rw [if_pos (show (!false) = true from rfl)]
    cases htaken : y.taken s₁ with
    | false => exact ⟨s₁, rfl, hk₁.mono (List.nil_subset _)⟩
    | true =>
      rcases hk₁.sound.avFrameUnref .ref with ⟨s₂, heq₂, hk₂, -⟩
      refine ⟨s₂, ?_, (hk₁.mono (List.nil_subset _)).trans hk₂⟩
      rw [if_pos rfl, heq₂, Flow.bind_next]
  | true =>
    have hempty : s₁.queue = [] := hk₁.queue.trans hqueue
    rw [if_neg (show ¬ (!true) = true by decide), hempty, List.nil_append]
    refine Or.inr ⟨rfl, _, s₁.frames .ref, rfl, ?_, State.setFrame_self _ _ _,
      hk₁.shows List.not_mem_nil hshows⟩
    have howned := owned_setFrame { s₁ with queue := [s₁.frames .ref] } .ref []
    have hqueue' := owned_queue s₁ [s₁.frames .ref]
    rw [hempty, List.flatten_nil, Multiset.coe_nil, Multiset.add_zero, List.flatten_singleton]
      at hqueue'
    rw [Multiset.coe_nil, Multiset.add_zero, hqueue', add_comm, add_right_inj] at howned
    have hframes : s₁.frames .ref = s.frames .ref := hk₁.frames _ List.not_mem_nil
    refine ⟨⟨?_, fun n _ => hk₁.data n List.not_mem_nil, rfl, ?_, hk₁.encode, hk₁.needWrite,
      hk₁.haveWrite, hk₁.received, congrArg (· ++ [Call.addFrame]) hk₁.log⟩, ?_⟩
    · intro n hn
      refine (State.setFrame_other (fun h => hn (List.mem_singleton.2 h)) _ _).trans ?_
      exact hk₁.frames n List.not_mem_nil
    · intro i hi
      rw [List.flatten_singleton, hframes] at hi
      exact hk₁.data .ref List.not_mem_nil i hi
    · have hb := hk₁.sound
      rw [Sound, howned] at hb
      exact hb

/-- The queue loses the picture in it. -/
theorem Same.dequeue (h : Same ns s s') :
    Same ns ({ s with queue := [] } : State) ({ s' with queue := [] } : State) :=
  { h with
    queue := rfl
    queueData := fun _ hi => absurd hi List.not_mem_nil }

/-- A frame that nobody else refers to is filled, with its own buffers or with new ones. -/
theorem passFilters_spec (y : World) (picture : Picture) (hne : f ≠ [])
    (hb : Balanced s.heap (↑f + (↑s.held + s.owned))) (hempty : s.frames .resize = []) :
    ∃ s', passFilters y picture f s = Flow.next s' ∧ Keeps [.resize] s s' ∧
      Shows s'.heap (s'.frames .resize) (some picture) := by
  by_cases hinPlace : (y.inPlace s && f.all fun i => s.heap.isWritable i) = true
  · rw [passFilters, if_pos hinPlace]
    rw [Bool.and_eq_true] at hinPlace
    refine ⟨_, rfl, Sound.setFrame hempty (hb.writeAll f) ?_, ?_⟩
    · intro i hi
      have hnot : i ∉ f := fun hf =>
        hb.notMem_of_all_isWritable hinPlace.2 hf (Multiset.mem_add.2 (Or.inr hi))
      rw [Heap.writeAll_data, if_neg hnot]
    · rw [State.setFrame_self]
      refine ⟨hne, fun i hi => ?_⟩
      exact (Heap.writeAll_data f s.heap i).trans (if_pos hi)
  · rw [passFilters, if_neg hinPlace]
    rcases hb.createAll picture (y.buffers s + 1) with ⟨hb', hnew, hold⟩
    rw [add_left_comm] at hb'
    rcases hb'.unrefAll with ⟨heap, heq, hb'', hdata⟩
    dsimp only
    rw [heq, onHeap, Flow.bind_next]
    refine ⟨_, rfl, Sound.setFrame hempty hb'' ?_, ?_⟩
    · intro i hi
      have hmem : i ∈ (↑f : Multiset ℕ) + (↑s.held + s.owned) :=
        Multiset.mem_add.2 (Or.inr (Multiset.mem_add.2 (Or.inr hi)))
      rw [congrFun hdata i]
      exact hold i (hb.lt_next hmem)
    · rw [State.setFrame_self]
      exact ⟨List.cons_ne_nil _ _, fun i hi => (congrFun hdata i).trans (hnew i hi)⟩

/-- The picture in the graph comes out of it. -/
theorem Sound.getFrame (hs : Sound s) (x : Context) (y : World) (hqueue : s.queue = [f])
    (hempty : s.frames .resize = []) {picture : Picture}
    (hshows : Shows s.heap f (some picture)) :
    (x.ffmpeg.getFrameOk s.log = false ∧ ∃ s', Refs.getFrame x y s = Flow.ret (some (-550), s') ∧
        Keeps [.resize] s s') ∨
      (x.ffmpeg.getFrameOk s.log = true ∧ ∃ s', Refs.getFrame x y s = Flow.next s' ∧
        Keeps [.resize] { s.call .getFrame with queue := [] } s' ∧
        Shows s'.heap (s'.frames .resize) (some { picture with filtered := true })) := by
  rcases hs.work y with ⟨s₁, heq₁, hk₁⟩
  have hqueue₁ : s₁.queue = [f] := hk₁.queue.trans hqueue
  have hempty₁ : s₁.frames .resize = [] := (hk₁.frames _ List.not_mem_nil).trans hempty
  have hflat : ∀ i ∈ f, i ∈ s.queue.flatten := by
    intro i hi
    rwa [hqueue, List.flatten_singleton]
  have hshows₁ : Shows s₁.heap f (some picture) :=
    hshows.congr fun i hi => hk₁.queueData i (hflat i hi)
  rw [Refs.getFrame, heq₁, Flow.bind_next, hk₁.log]
  cases hok : x.ffmpeg.getFrameOk s.log with
  | false => exact Or.inl ⟨rfl, s₁, rfl, hk₁.mono (List.nil_subset _)⟩
  | true =>
    refine Or.inr ⟨rfl, ?_⟩
    -- the picture is taken out of the queue
    have howned := owned_queue s₁ []
    rw [hqueue₁, List.flatten_singleton, List.flatten_nil, Multiset.coe_nil, Multiset.add_zero]
      at howned
    have hb : Balanced s₁.heap
        (↑f + (↑s₁.held + ({ s₁ with queue := [] } : State).owned)) := by
      have hsound : Balanced s₁.heap (↑s₁.held + s₁.owned) := hk₁.sound
      rwa [← howned, ← add_assoc, add_comm] at hsound
    have hread : (f.head?.bind fun i => s₁.heap.read i) = some picture := by
      cases f with
      | nil => exact absurd rfl hshows₁.1
      | cons i f =>
        rw [List.head?_cons, Option.bind_some,
          hb.read_eq (Multiset.mem_add.2 (Or.inl (Multiset.mem_coe.2 List.mem_cons_self))),
          hshows₁.2 i List.mem_cons_self]
    have hsame : Same [] ({ s.call .getFrame with queue := [] } : State)
        ({ s₁.call .getFrame with queue := [] } : State) := (hk₁.toSame.call .getFrame).dequeue
    rcases passFilters_spec y { picture with filtered := true }
      (s := { s₁.call .getFrame with queue := [] }) hshows₁.1 hb hempty₁ with
      ⟨s₂, heq₂, hk₂, hshows₂⟩
    refine ⟨s₂, ?_, ⟨(hsame.mono (List.nil_subset _)).trans hk₂.toSame, hk₂.sound⟩, hshows₂⟩
    rw [if_neg (show ¬ (!true) = true by decide)]
    simp only [hqueue₁, State.call_heap, hread]
    exact heq₂

/-! ## Writing -/

theorem encodeFrame_mem_owned {i : ℕ} (hi : i ∈ s.encodeFrame) : i ∈ s.owned := by
  rw [State.encodeFrame] at hi
  cases henc : s.encode with
  | null => rw [henc] at hi; exact absurd hi List.not_mem_nil
  | ref => rw [henc] at hi; exact mem_owned hi
  | resize => rw [henc] at hi; exact mem_owned hi

/-- The state after `write(output_paths[idx], encode_frame)`, but for the references. -/
def State.written (x : Context) (place : WithTop ℕ) (idx : ℕ) (s : State) : State :=
  let picture := s.encodeFrame.head?.map s.heap.data
  let s := s.call (.write ⟨idx, place, picture, write (x.ffmpeg.writeOk s.log) picture⟩)
  { s with
    needWrite := Function.update s.needWrite idx false
    haveWrite := s.haveWrite + 1 }

theorem Sound.writeIndex (hs : Sound s) (x : Context) (y : World) (place : WithTop ℕ) (idx : ℕ) :
    ∃ s', Refs.writeIndex x y place idx s = Flow.next s' ∧
      Keeps [] (s.written x place idx) s' := by
  have halive : (s.encodeFrame.all fun i => s.heap.count i ≠ 0) = true := by
    rw [List.all_eq_true]
    intro i hi
    exact decide_eq_true (hs.count_ne_zero
      (Multiset.mem_add.2 (Or.inr (encodeFrame_mem_owned hi))))
  rw [Refs.writeIndex]
  simp only [halive, if_true]
  generalize hc : Call.write _ = c
  rcases Sound.work (s := s.call c) hs y with ⟨s₁, heq₁, hk₁⟩
  have hkeep : ∀ i ∈ s.encodeFrame, i ∈ s₁.owned := by
    intro i hi
    refine encodeFrame_mem_owned ?_
    rw [hk₁.encodeFrame]
    exact hi
  rcases hk₁.sound.keep y hkeep with ⟨s₂, heq₂, hk₂⟩
  rw [heq₁, Flow.bind_next, heq₂, Flow.bind_next]
  refine ⟨_, rfl, ?_⟩
  have hk := hk₁.trans hk₂
  rw [State.written, hc]
  refine ⟨⟨hk.frames, hk.data, hk.queue, hk.queueData, hk.encode, ?_, ?_, hk.received, hk.log⟩,
    hk.sound⟩
  · exact congrArg (Function.update · idx false) hk.needWrite
  · exact congrArg (· + 1) hk.haveWrite

end keeps

/-! ## The references show the pictures -/

/-- The same counters and the same calls. -/
def Agrees (s : State) (t : Video.State) : Prop :=
  (s.needWrite, s.haveWrite, s.received, s.log) = (t.needWrite, t.haveWrite, t.received, t.log)

/-- The frames show what the slots hold. -/
structure Refines (s : State) (t : Video.State) : Prop where
  agrees : Agrees s t
  sound : Sound s
  queue : s.queue = []
  ref : Shows s.heap (s.frames .ref) t.ref
  resize : Shows s.heap (s.frames .resize) t.resize
  encode : s.encode = t.encode

/-- The same code, with the references counted. -/
structure Exits (r : Option ℤ × State) (r' : ℤ × Video.State) : Prop where
  code : r.1 = some r'.1
  sound : Sound r.2
  agrees : Agrees r.2 r'.2

section related
variable {x : Context} {y : World} {s s' : State} {t : Video.State} {ns : List Name}

theorem Agrees.needWrite (h : Agrees s t) : s.needWrite = t.needWrite := congrArg (·.1) h
theorem Agrees.haveWrite (h : Agrees s t) : s.haveWrite = t.haveWrite := congrArg (·.2.1) h
theorem Agrees.received (h : Agrees s t) : s.received = t.received := congrArg (·.2.2.1) h
theorem Agrees.log (h : Agrees s t) : s.log = t.log := congrArg (·.2.2.2) h

theorem Agrees.same (h : Agrees s t) (hk : Same ns s s') : Agrees s' t := by
  rwa [Agrees, hk.needWrite, hk.haveWrite, hk.received, hk.log]

theorem Agrees.call (h : Agrees s t) (c : Call) : Agrees (s.call c) (t.call c) := by
  rw [Agrees, State.call, Video.State.call, h.needWrite, h.haveWrite, h.received, h.log]

/-- A call that has to do with other frames only. -/
theorem Refines.keeps (h : Refines s t) (hk : Keeps ns s s') (href : Name.ref ∉ ns)
    (hresize : Name.resize ∉ ns) : Refines s' t where
  agrees := h.agrees.same hk.toSame
  sound := hk.sound
  queue := hk.queue.trans h.queue
  ref := hk.shows href h.ref
  resize := hk.shows hresize h.resize
  encode := hk.encode.trans h.encode

theorem Refines.call (h : Refines s t) (c : Call) : Refines (s.call c) (t.call c) :=
  { h with agrees := h.agrees.call c }

/-- FFmpeg at work. -/
theorem Refines.work (h : Refines s t) (y : World) :
    ∃ s', Refs.work y s = Flow.next s' ∧ Refines s' t := by
  rcases h.sound.work y with ⟨s', heq, hk⟩
  exact ⟨s', heq, h.keeps hk List.not_mem_nil List.not_mem_nil⟩

theorem Refines.unrefRef (h : Refines s t) :
    ∃ s', Refs.avFrameUnref .ref s = Flow.next s' ∧ Keeps [.ref] s s' ∧ s'.frames .ref = [] ∧
      Refines s' { t with ref := none } := by
  rcases h.sound.avFrameUnref .ref with ⟨s', heq, hk, hempty⟩
  exact ⟨s', heq, hk, hempty, h.agrees.same hk.toSame, hk.sound, hk.queue.trans h.queue, hempty,
    hk.shows (by simp) h.resize, hk.encode.trans h.encode⟩

theorem Refines.unrefResize (h : Refines s t) :
    ∃ s', Refs.avFrameUnref .resize s = Flow.next s' ∧ Refines s' { t with resize := none } := by
  rcases h.sound.avFrameUnref .resize with ⟨s', heq, hk, hempty⟩
  exact ⟨s', heq, h.agrees.same hk.toSame, hk.sound, hk.queue.trans h.queue,
    hk.shows (by simp) h.ref, hempty, hk.encode.trans h.encode⟩

theorem Refines.encodeFrame (h : Refines s t) :
    s.encodeFrame.head?.map s.heap.data = t.encodeFrame := by
  rw [State.encodeFrame, Video.State.encodeFrame, h.encode]
  cases t.encode with
  | null => rfl
  | ref => exact h.ref.head?
  | resize => exact h.resize.head?

theorem filterFrame_related (h : Refines s t) (hresize : t.resize = none) :
    Flow.Related Refines Exits (filterFrame x y s) (Video.filterFrame x t) := by
  have hempty : s.frames .resize = [] := by
    have hshows := h.resize
    rwa [hresize] at hshows
  rw [filterFrame, Video.filterFrame]
  by_cases hneed : x.needResize = true
  · rw [if_pos hneed, if_pos hneed]
    have href := h.ref
    cases hslot : t.ref with
    | none =>
      rw [hslot] at href
      have hnil : s.frames .ref = [] := href
      rw [addFrame, if_pos hnil, Flow.bind_ret]
      exact ⟨rfl, h.sound, h.agrees⟩
    | some picture =>
      rw [hslot] at href
      have hagrees : Agrees { s with encode := .ref } { t with encode := .ref } := h.agrees
      rcases Sound.addFrame (s := { s with encode := .ref }) h.sound x y href.1 h.queue href with
        ⟨hok, s₁, heq₁, hk₁⟩ | ⟨hok, s₁, f, heq₁, hk₁, hempty₁, hshows₁⟩
      · have hok' : x.ffmpeg.addFrameOk t.log = false := by rwa [h.agrees.log] at hok
        rw [heq₁, Flow.bind_ret]
        simp only [hok', Bool.not_false, if_true]
        exact ⟨rfl, hk₁.sound, hagrees.same hk₁.toSame⟩
      · have hok' : x.ffmpeg.addFrameOk t.log = true := by rwa [h.agrees.log] at hok
        have hagrees₁ : Agrees s₁ (t.call .addFrame) := by
          refine Agrees.same ?_ hk₁.toSame
          exact hagrees.call .addFrame
        rw [heq₁, Flow.bind_next]
        simp only [hok', Bool.not_true, Bool.false_eq_true, if_false, Video.State.call_log]
        rcases hk₁.sound.getFrame x y hk₁.queue ((hk₁.frames _ (by simp)).trans hempty) hshows₁
          with ⟨hgot, s₂, heq₂, hk₂⟩ | ⟨hgot, s₂, heq₂, hk₂, hshows₂⟩
        · rw [hagrees₁.log, Video.State.call_log] at hgot
          rw [heq₂, Flow.bind_ret]
          simp only [hgot, Bool.not_false, if_true]
          exact ⟨rfl, hk₂.sound, hagrees₁.same hk₂.toSame⟩
        · rw [hagrees₁.log, Video.State.call_log] at hgot
          rw [heq₂, Flow.bind_next]
          simp only [hgot, Bool.not_true, Bool.false_eq_true, if_false]
          have hagrees₂ : Agrees s₂ ((t.call .addFrame).call .getFrame) := by
            refine Agrees.same ?_ hk₂.toSame
            exact hagrees₁.call .getFrame
          exact ⟨hagrees₂, hk₂.sound, hk₂.queue, (hk₂.frames .ref (by simp)).trans hempty₁,
            hshows₂, rfl⟩
  · rw [if_neg hneed, if_neg hneed]
    exact ⟨h.agrees, h.sound, h.queue, h.ref, h.resize, rfl⟩

theorem writeIndex_related (h : Refines s t) (place : WithTop ℕ) (idx : ℕ) :
    ∃ s', writeIndex x y place idx s = Flow.next s' ∧
      Refines s' (Video.writeIndex x place idx t) := by
  rcases h.sound.writeIndex x y place idx with ⟨s', heq, hk⟩
  have hwritten : Refines (s.written x place idx) (Video.writeIndex x place idx t) := by
    rw [State.written, Video.writeIndex, h.encodeFrame, h.agrees.log]
    refine ⟨?_, h.sound, h.queue, h.ref, h.resize, h.encode⟩
    rw [Agrees, State.call, Video.State.call, h.agrees.needWrite, h.agrees.haveWrite,
      h.agrees.received, h.agrees.log]
  exact ⟨s', heq, hwritten.keeps hk List.not_mem_nil List.not_mem_nil⟩

/-- Between the indices of one frame `resize_frame` is empty. -/
structure TryRefines (p : Bool × State) (q : Bool × Video.State) : Prop where
  process : p.1 = q.1
  refines : Refines p.2 q.2
  resize : q.2.resize = none

theorem tryIndex_related (pts : ℤ) (idx : ℕ) (p : Bool × State) (q : Bool × Video.State)
    (h : TryRefines p q) :
    Flow.Related TryRefines Exits (tryIndex x y pts idx p) (Video.tryIndex x pts idx q) := by
  rcases p with ⟨process, s⟩
  rcases q with ⟨process', t⟩
  obtain rfl : process = process' := h.process
  have hrefines : Refines s t := h.refines
  have hresize : t.resize = none := h.resize
  rw [tryIndex, Video.tryIndex, hrefines.agrees.needWrite]
  by_cases hdue : (t.needWrite idx && x.due pts (x.tm idx)) = true
  · rw [if_pos hdue, if_pos hdue]
    have hfilter : Flow.Related Refines Exits
        (if !process then filterFrame x y s else Flow.next s)
        (if !process then Video.filterFrame x t else Flow.next t) := by
      split_ifs
      · exact filterFrame_related hrefines hresize
      · exact hrefines
    refine hfilter.bind fun s₁ t₁ h₁ => ?_
    have hplace : ((s₁.received - 1 : ℕ) : WithTop ℕ) = ((t₁.received - 1 : ℕ) : WithTop ℕ) := by
      rw [h₁.agrees.received]
    rcases writeIndex_related (x := x) (y := y) h₁ (s₁.received - 1 : ℕ) idx with ⟨s₂, heq₂, h₂⟩
    rcases h₂.unrefResize with ⟨s₃, heq₃, h₃⟩
    dsimp only
    rw [heq₂, Flow.bind_next, heq₃, Flow.bind_next, ← hplace]
    exact ⟨rfl, h₃, rfl⟩
  · rw [if_neg hdue, if_neg hdue]
    exact ⟨rfl, hrefines, hresize⟩

/-! ## The loops -/

/-- Between the frames `resize_frame` is empty. -/
def RestRefines (s : State) (t : Video.State) : Prop := Refines s t ∧ t.resize = none

/-- A frame is received, and `ref_frame` made to refer to its buffers, if it can. -/
theorem received_spec (h : Refines s t) (x : Context) (y : World) :
    ∃ s₁ s₂ s₃ : State, receiveFrame y s = Flow.next s₁ ∧ avFrameUnref .ref s₁ = Flow.next s₂ ∧
      avFrameRef x .ref .decode s₂ = Flow.next s₃ ∧
      Refines s₃ { t with
        decode := some ⟨t.received, false⟩
        received := t.received + 1
        ref := x.reference t.received } := by
  rcases h.sound.receiveFrame y with ⟨s₁, heq₁, hk₁, hshows₁⟩
  rcases hk₁.sound.avFrameUnref .ref with ⟨s₂, heq₂, hk₂, hempty₂⟩
  rcases hk₂.sound.avFrameRef x .decode hempty₂ with ⟨s₃, heq₃, hk₃, hshows₃⟩
  have hsame : Same [.decode, .ref] { s with received := s.received + 1 } s₃ :=
    (hk₁.toSame.mono (by simp)).trans
      ((hk₂.toSame.mono (by simp)).trans (hk₃.toSame.mono (by simp)))
  have hagrees : Agrees { s with received := s.received + 1 }
      { t with received := t.received + 1 } := by
    rw [Agrees, h.agrees.needWrite, h.agrees.haveWrite, h.agrees.received, h.agrees.log]
  have hreceived : s₂.received - 1 = s.received := by
    rw [hk₂.received, hk₁.received]
    rfl
  have href := hshows₃ _ (hk₂.shows (by simp) hshows₁)
  rw [hreceived] at href
  rw [← h.agrees.received]
  refine ⟨s₁, s₂, s₃, heq₁, heq₂, heq₃, ?_, hk₃.sound, hsame.queue.trans h.queue, href,
    hsame.shows (by simp) h.resize, hsame.encode.trans h.encode⟩
  rw [h.agrees.received]
  exact hagrees.same hsame

theorem indices_related (pts : ℤ) (h : RestRefines s t) :
    Flow.Related TryRefines Exits
      (Flow.forEach (tryIndex x y pts) (List.range x.tms.length) (false, s))
      (Flow.forEach (Video.tryIndex x pts) (List.range x.tms.length) (false, t)) :=
  Flow.related_forEach (fun idx p q hpq => tryIndex_related pts idx p q hpq) _ ⟨rfl, h.1, h.2⟩

theorem onFrame_related (pts : ℤ) (f : Frame) (h : RestRefines s t) :
    Flow.Related RestRefines Exits (onFrame x y pts f s) (Video.onFrame x pts f t) := by
  rcases received_spec h.1 x y with ⟨s₁, s₂, s₃, heq₁, heq₂, heq₃, h₃⟩
  rw [onFrame, heq₁, Flow.bind_next, heq₂, Flow.bind_next, heq₃, Flow.bind_next]
  refine (indices_related pts ⟨h₃, h.2⟩).bind fun p q hpq => ?_
  exact ⟨hpq.refines, hpq.resize⟩

theorem onPacket_related (e : Event) (h : RestRefines s t) :
    Flow.Related RestRefines Exits (onPacket x y e s) (Video.onPacket x e t) := by
  have hread : Refines (s.call .readFrame) (t.call .readFrame) := h.1.call .readFrame
  cases e with
  | other => exact ⟨hread.call .unref, h.2⟩
  | rejected pts =>
    rcases hread.work y with ⟨s₁, heq₁, h₁⟩
    rw [onPacket, heq₁, Flow.bind_next]
    exact ⟨rfl, h₁.sound, h₁.agrees⟩
  | accepted pts frames =>
    rcases hread.work y with ⟨s₁, heq₁, h₁⟩
    rw [onPacket, heq₁, Flow.bind_next]
    have hrest : RestRefines s₁ (t.call .readFrame) := ⟨h₁, h.2⟩
    refine (Flow.related_forEach (fun f a a' ha => onFrame_related pts f ha) frames
      hrest).bind fun s₂ t₂ h₂ => ?_
    rcases h₂.1.sound.receiveNothing y with ⟨s₃, heq₃, hk₃⟩
    rw [heq₃, Flow.bind_next]
    exact ⟨(h₂.1.keeps hk₃ (by simp) (by simp)).call .unref, h₂.2⟩

theorem fallback_related (h : RestRefines s t) :
    Flow.Related RestRefines Exits (fallback x y s) (Video.fallback x t) := by
  rw [fallback, Video.fallback]
  refine (filterFrame_related h.1 h.2).bind fun s₁ t₁ h₁ => ?_
  have hindex : ∀ (idx : ℕ) (s : State) (t : Video.State), Refines s t →
      Flow.Related Refines Exits (fallbackIndex x y idx s) (Video.fallbackIndex x idx t) := by
    intro idx s t h
    rw [fallbackIndex, Video.fallbackIndex, h.agrees.needWrite]
    split_ifs
    · rcases writeIndex_related (x := x) (y := y) h ⊤ idx with ⟨s', heq, h'⟩
      rw [heq]
      exact h'
    · exact h
  refine (Flow.related_forEach hindex (List.range x.tms.length) h₁).bind fun s₂ t₂ h₂ => ?_
  rcases h₂.unrefResize with ⟨s₃, heq₃, h₃⟩
  rw [heq₃]
  exact ⟨h₃, rfl⟩

theorem refines_init : RestRefines State.init Video.State.init := by
  refine ⟨⟨rfl, ⟨fun i => ?_, fun _ _ => rfl⟩, rfl, rfl, rfl, rfl⟩, rfl⟩
  simp [State.init, State.owned]

theorem run_related (x : Context) (y : World) :
    Flow.Related (fun _ _ => False) Exits (run x y) (Video.run x) := by
  rw [run, Video.run]
  cases x.events with
  | none => exact ⟨rfl, refines_init.1.sound, rfl⟩
  | some events =>
    dsimp only
    refine (Flow.related_forEachWhile (fun s t h => ?_)
      (fun e s t h => onPacket_related e h) events refines_init).bind fun s t h => ?_
    · rw [h.1.agrees.haveWrite]
    · have hfallback : Flow.Related RestRefines Exits
          (if s.haveWrite < x.tms.length then fallback x y s else Flow.next s)
          (if t.haveWrite < x.tms.length then Video.fallback x t else Flow.next t) := by
        rw [h.1.agrees.haveWrite]
        split_ifs
        · exact fallback_related h
        · exact h
      refine hfallback.bind fun s₁ t₁ h₁ => ?_
      rcases h₁.1.unrefRef with ⟨s₂, heq₂, -, -, h₂⟩
      rw [heq₂, Flow.bind_next]
      exact ⟨rfl, h₂.sound, h₂.agrees⟩

end related

/-- **The references do what the slots do**: the code is the same, and so are the calls with the
pictures they are given. -/
theorem run_refines (x : Context) (y : World) :
    ∃ code s t, run x y = Flow.ret (some code, s) ∧ Video.run x = Flow.ret (code, t) ∧
      s.log = t.log ∧ s.needWrite = t.needWrite ∧ s.haveWrite = t.haveWrite := by
  have hrelated := run_related x y
  rcases Video.run_eq_ret x with ⟨⟨code, t⟩, ht⟩
  rw [ht] at hrelated
  cases hrun : run x y with
  | next s => rw [hrun] at hrelated; exact hrelated.elim
  | hang => rw [hrun] at hrelated; exact hrelated.elim
  | ret r =>
    rw [hrun] at hrelated
    rcases r with ⟨c, s⟩
    obtain rfl : c = some code := hrelated.code
    exact ⟨code, s, t, rfl, ht, hrelated.agrees.log, hrelated.agrees.needWrite,
      hrelated.agrees.haveWrite⟩

/-! ## No use after free, and no leak -/

section released
variable {x : Context} {y : World} {s : State}

/-- The slots hold something that fits. -/
def Fits (s : State) : Prop := ∃ t, RestRefines s t

/-- The function returns a code, with the references counted. -/
def Coded (r : Option ℤ × State) : Prop := (∃ code, r.1 = some code) ∧ Sound r.2

theorem Exits.coded {r : Option ℤ × State} {r' : ℤ × Video.State} (h : Exits r r') : Coded r :=
  ⟨⟨r'.1, h.code⟩, h.sound⟩

theorem ends_of_related {α α' : Type} {R : α → α' → Prop} {a : Step α}
    {a' : Flow (ℤ × Video.State) α'} (h : Flow.Related R Exits a a') (hends : a' ≠ Flow.hang) :
    Flow.Ends (fun b => ∃ b', R b b') Coded a :=
  (h.ends hends).imp (fun _ hb => hb) fun _ hr => hr.elim fun _ hr' => hr'.coded

theorem tryIndices_ne_hang (x : Context) (pts : ℤ) (q : Bool × Video.State) :
    Flow.forEach (Video.tryIndex x pts) (List.range x.tms.length) q ≠ Flow.hang := by
  refine Flow.forEach_ne_hang _ _ fun idx q => ?_
  rcases q with ⟨process, t⟩
  rw [Video.tryIndex]
  split_ifs
  · exact Flow.bind_ne_hang (Video.filterFrame_ne_hang x t) fun t _ => by simp
  · simp
  · simp

/-- A frame that could not be referred to leaves `ref_frame` empty. -/
theorem onFrame_ends (pts : ℤ) (f : Frame) (h : Fits s) :
    Flow.Ends Fits Coded (onFrame x y pts f s) := by
  rcases h with ⟨t, ht⟩
  rcases received_spec ht.1 x y with ⟨s₁, s₂, s₃, heq₁, heq₂, heq₃, h₃⟩
  rw [onFrame, heq₁, Flow.bind_next, heq₂, Flow.bind_next, heq₃, Flow.bind_next]
  refine (ends_of_related (indices_related pts ⟨h₃, ht.2⟩) (tryIndices_ne_hang x pts _)).bind
    fun p hp => ?_
  rcases hp with ⟨q, hpq⟩
  exact ⟨q.2, hpq.refines, hpq.resize⟩

theorem onPacket_ends (e : Event) (h : Fits s) : Flow.Ends Fits Coded (onPacket x y e s) := by
  rcases h with ⟨t, ht⟩
  have hread : Refines (s.call .readFrame) (t.call .readFrame) := ht.1.call .readFrame
  cases e with
  | other => exact ⟨(t.call .readFrame).call .unref, hread.call .unref, ht.2⟩
  | rejected pts =>
    rcases hread.work y with ⟨s₁, heq₁, h₁⟩
    rw [onPacket, heq₁, Flow.bind_next]
    exact ⟨⟨-600, rfl⟩, h₁.sound⟩
  | accepted pts frames =>
    rcases hread.work y with ⟨s₁, heq₁, h₁⟩
    rw [onPacket, heq₁, Flow.bind_next]
    have hfits : Fits s₁ := ⟨t.call .readFrame, h₁, ht.2⟩
    refine (Flow.ends_forEach frames hfits fun f s hs => onFrame_ends pts f hs).bind
      fun s₂ hs₂ => ?_
    rcases hs₂ with ⟨t₂, h₂⟩
    rcases h₂.1.sound.receiveNothing y with ⟨s₃, heq₃, hk₃⟩
    rw [heq₃, Flow.bind_next]
    exact ⟨t₂.call .unref, (h₂.1.keeps hk₃ (by simp) (by simp)).call .unref, h₂.2⟩

theorem run_ends (x : Context) (y : World) :
    Flow.Ends (fun _ => False) Coded (run x y) := by
  rw [run]
  cases x.events with
  | none => exact ⟨⟨-510, rfl⟩, refines_init.1.sound⟩
  | some events =>
    dsimp only
    refine (Flow.ends_forEachWhile events ⟨Video.State.init, refines_init⟩ fun e s hs =>
      onPacket_ends e hs).bind fun s hs => ?_
    have hfallback : Flow.Ends Fits Coded
        (if s.haveWrite < x.tms.length then fallback x y s else Flow.next s) := by
      rcases hs with ⟨t, ht⟩
      split_ifs
      · exact ends_of_related (fallback_related ht) (Video.fallback_ne_hang x t)
      · exact ⟨t, ht⟩
    refine hfallback.bind fun s₁ hs₁ => ?_
    rcases hs₁ with ⟨t₁, h₁⟩
    rcases h₁.1.unrefRef with ⟨s₂, heq₂, -, -, h₂⟩
    rw [heq₂, Flow.bind_next]
    exact ⟨⟨0, rfl⟩, h₂.sound⟩

/-- The destructor leaves only what FFmpeg refers to itself. -/
theorem Sound.destroy (hs : Sound s) (y : World) :
    ∃ s', Refs.destroy y s = Flow.next s' ∧ Balanced s'.heap ↑s'.held := by
  rcases hs.work y with ⟨s₀, heq₀, hk₀⟩
  rcases hk₀.sound.avFrameUnref .decode with ⟨s₁, heq₁, hk₁, hdecode⟩
  rcases hk₁.sound.avFrameUnref .ref with ⟨s₂, heq₂, hk₂, href⟩
  rcases hk₂.sound.avFrameUnref .resize with ⟨s₃, heq₃, hk₃, hresize⟩
  have href₃ : s₃.frames .ref = [] := (hk₃.frames _ (by decide)).trans href
  have hdecode₃ : s₃.frames .decode = [] :=
    ((hk₃.frames _ (by decide)).trans (hk₂.frames _ (by decide))).trans hdecode
  have howned (queue : List (List ℕ)) :
      ({ s₃ with queue := queue } : State).owned = ↑queue.flatten := by
    simp [State.owned, hdecode₃, href₃, hresize]
  have hb : Balanced s₃.heap (↑s₃.queue.flatten + ↑s₃.held) := by
    rw [← howned, add_comm]
    exact hk₃.sound
  rcases hb.unrefAll with ⟨heap, heq₄, hb₄, -⟩
  have hs₄ : Sound ({ s₃ with heap := heap, queue := [] } : State) := by
    have hzero : ({ s₃ with heap := heap, queue := [] } : State).owned = 0 := howned []
    rwa [Sound, hzero, add_zero]
  rcases hs₄.work y with ⟨s₅, heq₅, hk₅⟩
  refine ⟨s₅, ?_, ?_⟩
  · rw [Refs.destroy, heq₀, Flow.bind_next, heq₁, Flow.bind_next, heq₂, Flow.bind_next, heq₃,
      Flow.bind_next, heq₄, onHeap, Flow.bind_next]
    exact heq₅
  · have hzero : s₅.owned = 0 := hk₅.toSame.owned.trans (howned [])
    have hs₅ := hk₅.sound
    rwa [Sound, hzero, add_zero] at hs₅

/-- **No buffer is used after it has been freed, and none is kept by a frame that is gone**:
whatever FFmpeg does, the run returns a code, and after the destructor only those buffers are left
that FFmpeg refers to itself. -/
theorem run_released (x : Context) (y : World) :
    ∃ code s s', run x y = Flow.ret (some code, s) ∧ destroy y s = Flow.next s' ∧
      ∀ i, s'.heap.count i = s'.held.count i := by
  rcases (run_ends x y).exists_ret with ⟨⟨c, s⟩, heq, ⟨code, hcode⟩, hs⟩
  obtain rfl : c = some code := hcode
  rcases hs.destroy y with ⟨s', heq', hb⟩
  exact ⟨code, s, s', heq, heq', fun i => (hb.count i).trans (Multiset.coe_count i _)⟩

end released

end AudioCrash.Video.Refs
