import AudioCrash.Lib.Loop
import Mathlib.Data.Rat.Defs
import Mathlib.Algebra.Order.Ring.Rat
import Mathlib.Data.Rat.Floor
import Mathlib.Logic.Function.Basic
import Mathlib.Order.WithBot

/-!
# Thumbnails of a video

`VideoThubmnail::run` seeks to the first requested time, decodes from there on, and writes a
thumbnail for every requested time when it receives a frame with a packet that has reached
that time. The times that no packet reaches are served after the loop, by the last frame.
When the picture is to be turned or scaled, it goes through a filter graph: once for the
first time that a frame serves, and once after the loop.

The model starts at the filter graph and the seek. A frame of FFmpeg is empty or holds a
picture: `av_frame_unref` empties it, `av_frame_ref` copies the reference or leaves the frame
empty when it fails, and `av_buffersrc_add_frame` takes the reference out of a frame and fails on
an empty one. A
picture is the number of the decoded frame that it shows, in the order of reception, and
whether it has gone through the filters. `need_rotate` is false throughout, so that the
rotation graph is left out.

## Main definitions

* `atoi`, `findRotate`, `makeDumpFlt`, `minof` — the set-up.
* `Event`, `Context`, `Ffmpeg` — the input, and the answers of the FFmpeg calls.
* `State` — the frames and the variables of `run`.
* `WriteStep`, `write` — the writer and its error codes.
* `filterFrame`, `tryIndex`, `onFrame`, `onPacket`, `fallback`, `run`.
-/

namespace AudioCrash.Video

/-! ## The set-up -/

/-- `atoi`, which is `(int) strtol`: the number is kept in the range of a `long` of 64 bits, and
then taken modulo 2 ^ 32. -/
def atoi (n : ℤ) : ℤ := (max (-2 ^ 63) (min n (2 ^ 63 - 1))).bmod (2 ^ 32)

/-- `find_rotate`, for the integer in the stream's metadata. -/
def findRotate : Option ℤ → ℤ
  | none => 0
  | some rotate => (atoi rotate).tmod 360

/-- The filter that turns the picture. -/
def rotateDesc (rotate : ℤ) : String :=
  if rotate = 90 then "transpose=1"
  else if rotate = 180 then "rotate=3.14159265358979323846264338327950288"
  else if rotate = 270 then "transpose=2"
  else "rotate=0"

/-- `make_dump_flt`: the description of the graph, or `none` when no graph is built. -/
def makeDumpFlt (rotate width : ℤ) : Option String :=
  if rotate = 0 ∧ width ≤ 0 then none
  else
    let desc := "[in] " ++ rotateDesc rotate
    let desc := if 0 < width then
        desc ++ " [inter]; [inter] " ++ " scale=" ++ toString width ++ ":" ++ toString width ++ "/a"
      else desc
    some (desc ++ " [out]")

/-- Conversion to an integer type, which drops the fraction. -/
def trunc (x : ℚ) : ℤ := if 0 ≤ x then ⌊x⌋ else ⌈x⌉

/-- `minof`, whose return type is `int`. -/
def minof (tms : List ℚ) : ℤ := trunc (tms.tail.foldl min (tms.headD 0))

/-! ## The input -/

/-- A decoded frame, with its own time. -/
structure Frame where
  pts : ℤ
  deriving DecidableEq, Repr

/-- A packet that `av_read_frame` delivers: of another stream, rejected by
`avcodec_send_packet`, or giving decoded frames. -/
inductive Event where
  | other
  | rejected (pts : ℤ)
  | accepted (pts : ℤ) (frames : List Frame)
  deriving DecidableEq, Repr

/-- The picture in a frame. -/
structure Picture where
  frame : ℕ
  filtered : Bool
  deriving DecidableEq, Repr

/-- A frame of FFmpeg is empty or holds a picture. -/
abbrev Slot := Option Picture

/-- What `encode_frame` points to. -/
inductive Pointer where
  | null | ref | resize
  deriving DecidableEq, Repr

/-- A call of `write(output_paths[idx], encode_frame)`: the decoded frame it is made for (`⊤`
after the loop), what `encode_frame` holds, and the code returned. -/
structure Written where
  idx : ℕ
  place : WithTop ℕ
  picture : Slot
  code : ℤ
  deriving DecidableEq

/-- The calls that a run makes. -/
inductive Call where
  /-- `av_read_frame`, which delivered a packet. -/
  | readFrame
  /-- `av_packet_unref(&avpkt)`. -/
  | unref
  /-- `av_buffersrc_add_frame`. -/
  | addFrame
  /-- `av_buffersink_get_frame`. -/
  | getFrame
  | write (w : Written)

/-- The steps of `write` that can fail. -/
inductive WriteStep where
  | avioOpen | newStream | findEncoder | open2 | writeHeader | encode
  deriving DecidableEq, Repr

/-- The answers of the FFmpeg calls, after any calls; `av_frame_ref` is asked once for each
decoded frame. -/
structure Ffmpeg where
  refOk : ℕ → Bool
  addFrameOk : List Call → Bool
  getFrameOk : List Call → Bool
  writeOk : List Call → WriteStep → Bool

/-- `(double) avpkt.pts / stream->duration >= tms[idx] * 1000 / av_format_ctx->duration`, in
exact arithmetic. -/
def exactDue (streamDuration duration : ℤ) (pts : ℤ) (t : ℚ) : Bool :=
  decide (t * 1000 / duration ≤ pts / streamDuration)

/-- What a run is given: the requested times, the metadata of the stream and the requested
width, the durations, and the packets delivered after a seek, when the seek succeeds. `due`
is the comparison of a packet's time, as a fraction of the stream's duration, with a
requested time. -/
structure Context where
  tms : List ℚ
  metadata : Option ℤ
  width : ℤ
  streamDuration : ℤ
  duration : ℤ
  due : ℤ → ℚ → Bool
  seek : ℤ → Option (List Event)
  ffmpeg : Ffmpeg

namespace Context

/-- `need_resize`. -/
def needResize (x : Context) : Bool := (makeDumpFlt (findRotate x.metadata) x.width).isSome

/-- The packets after the seek. -/
def events (x : Context) : Option (List Event) :=
  x.seek (trunc (x.streamDuration * minof x.tms * 1000 / x.duration))

/-- `tms[idx]`. -/
def tm (x : Context) (idx : ℕ) : ℚ := x.tms.getD idx 0

/-- The comparison is exact. -/
def Exact (x : Context) : Prop := x.due = exactDue x.streamDuration x.duration

end Context

/-! ## The run -/

/-- The frames and the variables of `run`. -/
structure State where
  decode : Slot
  ref : Slot
  resize : Slot
  encode : Pointer
  needWrite : ℕ → Bool
  haveWrite : ℕ
  /-- The frames received so far. -/
  received : ℕ
  log : List Call

namespace State

/-- Make a call. -/
def call (s : State) (c : Call) : State := { s with log := s.log ++ [c] }

/-- `*encode_frame`. -/
def encodeFrame (s : State) : Slot :=
  match s.encode with
  | .null => none
  | .ref => s.ref
  | .resize => s.resize

@[simp] theorem call_decode (s : State) (c : Call) : (s.call c).decode = s.decode := rfl
@[simp] theorem call_ref (s : State) (c : Call) : (s.call c).ref = s.ref := rfl
@[simp] theorem call_resize (s : State) (c : Call) : (s.call c).resize = s.resize := rfl
@[simp] theorem call_encode (s : State) (c : Call) : (s.call c).encode = s.encode := rfl
@[simp] theorem call_needWrite (s : State) (c : Call) : (s.call c).needWrite = s.needWrite := rfl
@[simp] theorem call_haveWrite (s : State) (c : Call) : (s.call c).haveWrite = s.haveWrite := rfl
@[simp] theorem call_received (s : State) (c : Call) : (s.call c).received = s.received := rfl
@[simp] theorem call_log (s : State) (c : Call) : (s.call c).log = s.log ++ [c] := rfl

end State

/-- The error code of a step of `write`. -/
def WriteStep.code : WriteStep → ℤ
  | avioOpen => -10100
  | newStream => -10200
  | findEncoder => -10300
  | open2 => -10400
  | writeHeader => -10410
  | encode => -10500

/-- The steps of `write`, in order. -/
def WriteStep.all : List WriteStep :=
  [avioOpen, newStream, findEncoder, open2, writeHeader, encode]

/-- `write`: the code of the first step that fails, or 0. An empty frame has no width and no
height, and no encoder is opened for it. -/
def write (ok : WriteStep → Bool) (frame : Slot) : ℤ :=
  match WriteStep.all.find? fun step => !ok step || (step == .open2 && frame.isNone) with
  | some step => step.code
  | none => 0

section run
variable (x : Context)

/-- A statement goes on, or returns a code. -/
abbrev Step := Flow (ℤ × State)

/-- `encode_frame = ref_frame`, and the way of the picture through the filters. -/
def filterFrame (s : State) : Step State :=
  let s := { s with encode := .ref }
  if x.needResize then
    match s.ref with
    | none => Flow.ret (-540, s)
    | some picture =>
      if !x.ffmpeg.addFrameOk s.log then Flow.ret (-540, s)
      else
        let s := { s.call .addFrame with ref := none }
        if !x.ffmpeg.getFrameOk s.log then Flow.ret (-550, s)
        else
          let s := s.call .getFrame
          Flow.next { s with
            resize := some { picture with filtered := true }
            encode := .resize }
  else Flow.next s

/-- `write(output_paths[idx], encode_frame)` and the two counters. -/
def writeIndex (place : WithTop ℕ) (idx : ℕ) (s : State) : State :=
  let picture := s.encodeFrame
  let s := s.call (.write ⟨idx, place, picture, write (x.ffmpeg.writeOk s.log) picture⟩)
  { s with
    needWrite := Function.update s.needWrite idx false
    haveWrite := s.haveWrite + 1 }

/-- One iteration of the loop over the indices, for a packet's time; the flag is `process`. -/
def tryIndex (pts : ℤ) (idx : ℕ) (p : Bool × State) : Step (Bool × State) :=
  let (process, s) := p
  if s.needWrite idx && x.due pts (x.tm idx) then
    (if !process then filterFrame x s else Flow.next s).bind fun s =>
    let place : ℕ := s.received - 1
    let s := writeIndex x place idx s
    -- av_frame_unref(rotate_frame) and av_frame_unref(resize_frame)
    Flow.next (true, { s with resize := none })
  else Flow.next (process, s)

/-- One iteration of the loop over the decoded frames of a packet. -/
def onFrame (pts : ℤ) (_f : Frame) (s : State) : Step State :=
  let n := s.received
  let s := { s with decode := some ⟨n, false⟩, received := n + 1 }
  let s := { s with ref := none }
  -- the code of av_frame_ref is dropped
  let s := { s with ref := if x.ffmpeg.refOk n then s.decode else none }
  (Flow.forEach (tryIndex x pts) (List.range x.tms.length) (false, s)).bind fun p =>
  Flow.next p.2

/-- One iteration of the loop over the packets. -/
def onPacket (event : Event) (s : State) : Step State :=
  let s := s.call .readFrame
  match event with
  | .other => Flow.next (s.call .unref)
  | .rejected _ => Flow.ret (-600, s)
  | .accepted pts frames =>
    (Flow.forEach (onFrame x pts) frames s).bind fun s =>
    Flow.next (s.call .unref)

/-- One iteration of the loop over the indices after the end of the stream. -/
def fallbackIndex (idx : ℕ) (s : State) : Step State :=
  if s.needWrite idx then Flow.next (writeIndex x ⊤ idx s) else Flow.next s

/-- The indices that no packet has served. -/
def fallback (s : State) : Step State :=
  (filterFrame x s).bind fun s =>
  (Flow.forEach (fallbackIndex x) (List.range x.tms.length) s).bind fun s =>
  Flow.next { s with resize := none }

/-- The state before the seek. -/
def State.init : State where
  decode := none
  ref := none
  resize := none
  encode := .null
  needWrite := fun _ => true
  haveWrite := 0
  received := 0
  log := []

/-- `run` from `/// 3. Decode A Stream` on. -/
def run : Step State :=
  match x.events with
  | none => Flow.ret (-510, State.init)
  | some events =>
    (Flow.forEachWhile (fun s => decide (s.haveWrite < x.tms.length)) (onPacket x) events
      State.init).bind fun s =>
    (if s.haveWrite < x.tms.length then fallback x s else Flow.next s).bind fun s =>
    Flow.ret (0, { s with ref := none })

end run
end AudioCrash.Video
