import AudioCrash.Lib.Script
import AudioCrash.Video.Answers
import AudioCrash.Video.Choice
import AudioCrash.Video.Counting

/-!
# One pass for all times, or one thread for each

`to_thumbnail` runs one object for all requested times, or, with `WITH_OMP`, one object and
thread for each of them. The one object seeks to the least time and returns the status of its
run; the threads seek to their own times, and their status is dropped.

A file is what the calls of FFmpeg say about it, the same for every object: the packets, the
position that a seek leads to, and the step of the set-up that fails, if any. A seek leads to
a key frame at or before the target, and a packet that the decoder accepts gives its own
picture at once, wherever the decoding has started. What the filters and `av_frame_ref` answer may
be different for every object.

## Main definitions

* `Context.Completes`, `passed` — the status of a run, and what it passes to `write`.
* `Packet`, `File` — the input file.
* `File.run`, `File.Serial`, `File.Threaded` — the two ways of `to_thumbnail`.
* `File.Same`, `same_iff` — when they do the same.
-/

namespace AudioCrash.Video

/-! ## The status and the pictures of a run -/

/-- A run over the packets `es` comes to its end when no filter call fails: every time is reached,
or no packet is rejected and a picture is left in `ref_frame` for the filters; and no frame that
serves a time has to go through the filters without having been referred to. -/
structure Context.Completes (x : Context) (es : List Event) : Prop where
  ends : (∀ idx < x.tms.length, x.firstDue (Video.framePts es) idx ≠ none) ∨
    NoneRejected es ∧ (x.needResize = true → x.refAfter (Video.framePts es) ≠ none)
  referred : x.Referred (Video.framePts es)

/-- The picture that a run has passed to `write` for an index. -/
def passed (r : ℤ × State) (idx : ℕ) : Slot :=
  ((writes r.2.log).find? fun w => w.idx == idx).bind Written.picture

section result
variable {x : Context} {r : ℤ × State} {es : List Event}

theorem Context.refAfter_eq_none_iff (hresize : x.needResize = true) (ps : List ℤ) :
    x.refAfter ps = none ↔ ps = [] ∨ x.Taken ps (ps.length - 1) x.tms.length ∨
      x.ffmpeg.refOk (ps.length - 1) = false := by
  rw [Context.refAfter]
  cases ps with
  | nil => simp
  | cons p ps =>
    simp only [List.length_cons, Nat.add_sub_cancel, hresize, true_and, reduceCtorEq, false_or]
    split_ifs with htaken
    · exact iff_of_true rfl (Or.inl htaken)
    · rw [x.reference_eq_none_iff, or_iff_right htaken]

theorem Context.accepts_iff (hes : x.events = some es) : x.Accepts ↔ NoneRejected es := by
  constructor
  · intro haccepts
    rcases haccepts with ⟨es', hes', hnone⟩
    rw [hes, Option.some_inj] at hes'
    exact hes' ▸ hnone
  · intro hnone
    exact ⟨es, hes, hnone⟩

/-- A run that is halted does not come to its end. -/
theorem Context.Halts.not_completes {ps : List ℤ} (h : x.Halts ps) (hes : x.events = some es)
    (hpending : ∃ idx < x.tms.length, x.firstDue ps idx = none) : ¬ x.Completes es := by
  have hpts := x.framePts_of_events hes
  rintro ⟨hends, hreferred⟩
  cases h with
  | atEnd hall hcause =>
    rw [hpts] at hall
    subst hall
    rcases hends with hevery | ⟨hnone, hpicture⟩
    · rcases hpending with ⟨idx, hidx, hdue⟩
      exact hevery idx hidx hdue
    · rcases hcause with hrejects | ⟨hresize, hempty⟩
      · exact hrejects ((Context.accepts_iff hes).2 hnone)
      · exact hpicture hresize hempty
  | unreferenced hresize htaken hfails =>
    rw [hpts] at htaken
    rw [hreferred hresize _ htaken] at hfails
    exact Bool.noConfusion hfails

/-- Whatever FFmpeg answers, a run that returns 0 has come to its end. -/
theorem Outcome.completes (h : Outcome x r) (hcode : r.1 = 0) :
    ∃ es, x.events = some es ∧ x.Completes es := by
  cases h with
  | left ps _ _ _ hne => exact absurd hcode hne
  | reached ps hpre _ href _ hseeks hevery =>
    rcases Option.ne_none_iff_exists'.1 hseeks with ⟨es, hes⟩
    rw [x.framePts_of_events hes] at hpre
    refine ⟨es, hes, Or.inl fun idx hidx => ?_, href.of_isPrefix x hpre hevery⟩
    rcases Option.ne_none_iff_exists'.1 (hevery idx hidx) with ⟨n, hn⟩
    rw [x.firstDue_of_isPrefix hpre hn]
    exact Option.some_ne_none n
  | fell _ href _ haccepts hpicture =>
    rcases haccepts with ⟨es, hes, hnone⟩
    rw [x.framePts_of_events hes] at href hpicture
    exact ⟨es, hes, Or.inr ⟨hnone, hpicture⟩, href⟩

/-- **The status of a run whose filters do not fail.** -/
theorem Outcome.code_eq_zero_iff (h : Outcome x r) (hf : x.ffmpeg.Filters) :
    r.1 = 0 ↔ ∃ es, x.events = some es ∧ x.Completes es := by
  refine ⟨h.completes, ?_⟩
  rintro ⟨es, hes, hcompletes⟩
  cases h with
  | left ps _ _ _ _ hpending hhalts =>
    rcases hpending with hseek | hpending
    · rw [hes] at hseek
      exact absurd hseek (Option.some_ne_none es)
    · exact absurd hcompletes ((hhalts hf).not_completes hes hpending)
  | reached _ _ _ _ hcode => exact hcode
  | fell _ _ hcode => exact hcode

theorem willing_completes_iff : x.willing.Completes es ↔ x.Completes es :=
  ⟨fun h => ⟨h.ends, h.referred⟩, fun h => ⟨h.ends, h.referred⟩⟩

/-- **The status**: a run returns 0 exactly when the seek succeeds, the run comes to its end, and
the filters answer. -/
theorem code_eq_zero_iff_answer (hr : run x = Flow.ret r) :
    r.1 = 0 ↔ (∃ es, x.events = some es ∧ x.Completes es) ∧ x.FiltersAnswer := by
  rcases run_eq_ret x.willing with ⟨r', hr'⟩
  have hwilling : r'.1 = 0 ↔ ∃ es, x.events = some es ∧ x.Completes es := by
    rw [(outcome_of_run _ hr').code_eq_zero_iff (willing_filters x)]
    exact exists_congr fun es => and_congr_right fun _ => willing_completes_iff
  constructor
  · intro hcode
    refine ⟨(outcome_of_run x hr).completes hcode, fun r'' hr'' => ?_⟩
    rcases (run_eq_ret_iff x hcode).1 hr with ⟨hsame, hanswered⟩
    rw [hsame, Flow.ret.injEq] at hr''
    exact hr'' ▸ hanswered
  · rintro ⟨hcompletes, hanswer⟩
    have hcode := hwilling.2 hcompletes
    have hrun := (run_eq_ret_iff x hcode).2 ⟨hr', hanswer r' hr'⟩
    rw [hr, Flow.ret.injEq] at hrun
    exact hrun ▸ hcode

end result

/-! ## The file -/

/-- A packet of the file: of another stream, or of the video, with its time, whether it holds
a key frame, and whether `avcodec_send_packet` accepts it. -/
inductive Packet where
  | other
  | video (pts : ℤ) (key accepted : Bool)
  deriving DecidableEq, Repr

/-- The packet as `run` meets it. -/
def Packet.event : Packet → Event
  | .other => .other
  | .video pts _ true => .accepted pts [⟨pts⟩]
  | .video pts _ false => .rejected pts

/-- The packet gives a picture. -/
def Packet.isPicture : Packet → Bool
  | .other => false
  | .video _ _ accepted => accepted

/-- The packet is rejected. -/
def Packet.isRejected : Packet → Bool
  | .other => false
  | .video _ _ accepted => !accepted

/-- The packet gives a picture, and its time passes the test. -/
def Packet.reaches (q : ℤ → Bool) : Packet → Bool
  | .other => false
  | .video pts _ accepted => accepted && q pts

section packet
variable (q : ℤ → Bool) (pts : ℤ) (key accepted : Bool)

@[simp] theorem Packet.event_other : Packet.other.event = .other := rfl
@[simp] theorem Packet.event_true : (video pts key true).event = .accepted pts [⟨pts⟩] := rfl
@[simp] theorem Packet.event_false : (video pts key false).event = .rejected pts := rfl
@[simp] theorem Packet.isPicture_other : Packet.other.isPicture = false := rfl
@[simp] theorem Packet.isPicture_video : (video pts key accepted).isPicture = accepted := rfl
@[simp] theorem Packet.isRejected_other : Packet.other.isRejected = false := rfl
@[simp] theorem Packet.isRejected_video : (video pts key accepted).isRejected = !accepted := rfl
@[simp] theorem Packet.reaches_other : Packet.other.reaches q = false := rfl
@[simp] theorem Packet.reaches_video :
    (video pts key accepted).reaches q = (accepted && q pts) := rfl

end packet

/-- The steps of `run` before the seek that can fail. -/
inductive SetUp where
  | openInput | findStreamInfo | findBestStream | open2 | frameAlloc
  deriving DecidableEq, Repr

/-- The error code of a step of the set-up. -/
def SetUp.code : SetUp → ℤ
  | openInput => -100
  | findStreamInfo => -200
  | findBestStream => -300
  | open2 => -400
  | frameAlloc => -500

theorem SetUp.code_ne_zero (step : SetUp) : step.code ≠ 0 := by
  cases step <;> decide

/-- A file, with the comparison of a packet's time and a requested time as in `Context`. -/
structure File where
  /-- The first step of the set-up that fails. -/
  fails : Option SetUp
  metadata : Option ℤ
  streamDuration : ℤ
  duration : ℤ
  due : ℤ → ℚ → Bool
  packets : List Packet
  /-- The packet that `av_seek_frame` leads to. -/
  seekPos : ℤ → Option ℕ
  /-- A seek leads to a key frame at or before the target. -/
  seek_key : ∀ target k, seekPos target = some k →
    ∃ pts accepted, packets[k]? = some (.video pts true accepted) ∧ pts ≤ target

/-- The status that `to_thumbnail` returns, and the picture written for each index. -/
structure Thumbnails where
  status : ℤ
  picture : ℕ → Slot

namespace File
variable (file : File) (tms : List ℚ) (width : ℤ)

/-- What an object is given. -/
def context (ffmpeg : Ffmpeg) : Context where
  tms := tms
  metadata := file.metadata
  width := width
  streamDuration := file.streamDuration
  duration := file.duration
  due := file.due
  seek := fun target => (file.seekPos target).map fun k => (file.packets.drop k).map Packet.event
  ffmpeg := ffmpeg

/-- `VideoThubmnail::run`, from its first statement on. -/
def run (ffmpeg : Ffmpeg) : Step State :=
  match file.fails with
  | some step => Flow.ret (step.code, State.init)
  | none => Video.run (file.context tms width ffmpeg)

/-- The packet that a run starts from. -/
def start : Option ℕ :=
  file.seekPos (trunc (file.streamDuration * minof tms * 1000 / file.duration))

/-- The number of pictures before a packet. -/
def picturesBefore (k : ℕ) : ℕ := (file.packets.take k).countP Packet.isPicture

/-- The picture that a run has passed to `write` for an index, with its number in the file. -/
def shown (r : ℤ × State) (idx : ℕ) : Slot :=
  (passed r idx).map fun picture =>
    { picture with frame := ((file.start tms).elim 0 file.picturesBefore) + picture.frame }

/-- `to_thumbnail` without `WITH_OMP`. -/
def Serial (ffmpeg : Ffmpeg) (t : Thumbnails) : Prop :=
  ∃ r, file.run tms width ffmpeg = Flow.ret r ∧ t = ⟨r.1, file.shown tms r⟩

/-- `to_thumbnail` with `WITH_OMP`: the thread of an index is given `output_paths + idx`,
`tms + idx` and the length 1. -/
def Threaded (ffmpeg : ℕ → Ffmpeg) (t : Thumbnails) : Prop :=
  t.status = 0 ∧ ∀ idx < tms.length, ∃ r,
    file.run [tms.getD idx 0] width (ffmpeg idx) = Flow.ret r ∧
      t.picture idx = file.shown [tms.getD idx 0] r 0

/-- Both ways return the same status and write the same pictures, when FFmpeg answers the one
object and the threads so. -/
def Same (ffmpeg : Ffmpeg) (threads : ℕ → Ffmpeg) : Prop :=
  ∀ t t', file.Serial tms width ffmpeg t → file.Threaded tms width threads t' →
    t.status = t'.status ∧ ∀ idx < tms.length, t.picture idx = t'.picture idx

/-! ## The condition -/

/-- The packets from `k` on, as `run` meets them. -/
def eventsFrom (k : ℕ) : List Event := (file.packets.drop k).map Packet.event

/-- The packet times of the pictures from `k` on. -/
def ptsFrom (k : ℕ) : List ℤ := Video.framePts (file.eventsFrom k)

/-- A pass from the packet `k` meets a rejected packet before one that has reached the time. -/
def Refused (t : ℚ) (k : ℕ) : Prop :=
  (∃ p ∈ file.packets.drop k, p.isRejected = true) ∧ ∀ p ∈ file.ptsFrom k, file.due p t = false

/-- No packet between `k` and `k'` is rejected or has reached the time. -/
def Quiet (t : ℚ) (k k' : ℕ) : Prop :=
  ∀ p ∈ (file.packets.take (max k k')).drop (min k k'),
    p.isRejected = false ∧ p.reaches (file.due · t) = false

end File

/-- The picture that a time is served with in a pass over the packets `l`, when nothing is
lost: the first one whose time passes the test, or the last one when no packet is rejected. -/
def pass (q : ℤ → Bool) (l : List Packet) : Option ℕ :=
  let ps := framePts (l.map Packet.event)
  if (∃ p ∈ ps, q p = true) ∨ ∀ p ∈ l, p.isRejected = false then firstOrLast q ps else none

section pass
variable {q : ℤ → Bool} {p : Packet} {l seg : List Packet}

theorem noneRejected_map_iff :
    NoneRejected (l.map Packet.event) ↔ ∀ p ∈ l, p.isRejected = false := by
  induction l with
  | nil => simp [NoneRejected]
  | cons p l ih =>
    have hcons : NoneRejected ((p :: l).map Packet.event) ↔
        p.isRejected = false ∧ NoneRejected (l.map Packet.event) := by
      simp only [NoneRejected, List.map_cons, List.mem_cons, forall_eq_or_imp]
      rcases p with _ | ⟨pts, key, _ | _⟩ <;> simp
    rw [hcons, ih, List.forall_mem_cons]

end pass

namespace File

/-! ## Passes from two packets -/

section passes
variable {file : File} {tms : List ℚ} {t : ℚ} {k k' n : ℕ}

/-- The picture that a time is served with in a pass from the packet `k`, with its number in
the file. -/
def served (file : File) (t : ℚ) (k : ℕ) : Option ℕ :=
  (pass (file.due · t) (file.packets.drop k)).map (file.picturesBefore k + ·)

end passes

/-! ## The runs -/

section runs
variable {file : File} {tms : List ℚ} {width : ℤ} {ffmpeg : Ffmpeg} {r : ℤ × State} {t : ℚ}
  {k idx : ℕ}

theorem run_eq_ret (file : File) (tms : List ℚ) (width : ℤ) (ffmpeg : Ffmpeg) :
    ∃ r, file.run tms width ffmpeg = Flow.ret r := by
  rw [run]
  cases file.fails with
  | some step => exact ⟨_, rfl⟩
  | none => exact Video.run_eq_ret _

theorem outcome_of_run (hfails : file.fails = none)
    (hr : file.run tms width ffmpeg = Flow.ret r) :
    Outcome (file.context tms width ffmpeg) r := by
  rw [run, hfails] at hr
  exact Video.outcome_of_run _ hr

theorem context_events (file : File) (tms : List ℚ) (width : ℤ) (ffmpeg : Ffmpeg) :
    (file.context tms width ffmpeg).events = (file.start tms).map file.eventsFrom := rfl

/-- **The status of an object.** -/
theorem code_eq_zero_iff (hr : file.run tms width ffmpeg = Flow.ret r) :
    r.1 = 0 ↔ file.fails = none ∧ (∃ k, file.start tms = some k ∧
        (file.context tms width ffmpeg).Completes (file.eventsFrom k)) ∧
      (file.context tms width ffmpeg).FiltersAnswer := by
  cases hfails : file.fails with
  | some step =>
    rw [run, hfails, Flow.ret.injEq] at hr
    refine iff_of_false ?_ fun h => Option.some_ne_none step h.1
    rw [← hr]
    exact step.code_ne_zero
  | none =>
    rw [run, hfails] at hr
    rw [code_eq_zero_iff_answer hr, context_events, and_iff_right rfl]
    refine and_congr_left fun _ => ?_
    constructor
    · rintro ⟨es, hes, hcompletes⟩
      rcases Option.map_eq_some_iff.1 hes with ⟨k, hk, rfl⟩
      exact ⟨k, hk, hcompletes⟩
    · rintro ⟨k, hk, hcompletes⟩
      exact ⟨file.eventsFrom k, by rw [hk, Option.map_some], hcompletes⟩

theorem due_iff (file : File) (tms : List ℚ) (width : ℤ) (ffmpeg : Ffmpeg) (idx k : ℕ) :
    (file.context tms width ffmpeg).firstDue (file.ptsFrom k) idx ≠ none ↔
      ∃ p ∈ file.ptsFrom k, file.due p (tms.getD idx 0) = true := by
  rw [Ne, Context.firstDue, List.findIdx?_eq_none_iff]
  push Not
  simp only [Bool.not_eq_false]
  rfl

/-- In a run that comes to its end, no pass is refused before the time is reached. -/
theorem not_refused (hcompletes : (file.context tms width ffmpeg).Completes (file.eventsFrom k))
    (hidx : idx < tms.length) : ¬ file.Refused (tms.getD idx 0) k := by
  rintro ⟨⟨p, hp, hrejected⟩, hdue⟩
  rcases hcompletes.ends with hall | ⟨hnone, -⟩
  · rcases (due_iff file tms width ffmpeg idx k).1 (hall idx hidx) with ⟨p', hp', hdue'⟩
    rw [hdue p' hp'] at hdue'
    exact Bool.false_ne_true hdue'
  · rw [noneRejected_map_iff.1 hnone p hp] at hrejected
    exact Bool.false_ne_true hrejected

section single
variable (file : File) (t : ℚ) (width : ℤ) (ffmpeg : Ffmpeg) {ps : List ℤ}

end single

end runs
end File

end AudioCrash.Video
