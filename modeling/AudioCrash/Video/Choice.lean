import AudioCrash.Lib.FirstOrLast
import AudioCrash.Video.Live

/-!
# The picture chosen for a requested time

Earlier times are served no later, whatever the packets look like (`served_mono`): the loop
compares every time with the same packet time.

The time that is compared is that of the packet sent last, not that of the frame received,
and the decoder is not drained at the end of the stream. Besides, a picture can get lost on
the way through the filters. `correct_iff` says for one requested time when none of this
makes a difference.

## Main definitions

* `served_mono` — the order in which the times are served.
* `wanted`, `Correct` — the frame that a time asks for, and that it is written.
* `Context.Lost`, `Context.chosen` — the picture that is written.
* `correct_iff` — when it is the right one.
-/

namespace AudioCrash.Video

/-! ## The order of the indices -/

section order
variable {x : Context} {ps : List ℤ} {a b : ℕ}

/-- An index that is due whenever another one is, is served no later. -/
theorem firstDue_mono (hdue : ∀ p, x.due p (x.tm b) = true → x.due p (x.tm a) = true) {n : ℕ}
    (hb : x.firstDue ps b = some n) : ∃ m ≤ n, x.firstDue ps a = some m := by
  rw [Context.firstDue, List.findIdx?_eq_some_iff_getElem] at hb
  rcases hb with ⟨hn, hreach, _⟩
  cases ha : x.firstDue ps a with
  | none =>
    rw [Context.firstDue, List.findIdx?_eq_none_iff] at ha
    have hnot := ha ps[n] (List.getElem_mem hn)
    rw [hdue _ hreach] at hnot
    exact absurd hnot (by decide)
  | some m =>
    refine ⟨m, ?_, rfl⟩
    rw [Context.firstDue, List.findIdx?_eq_some_iff_getElem] at ha
    rcases ha with ⟨_, _, hbefore⟩
    by_contra hlt
    exact hbefore n (by omega) (hdue _ hreach)

theorem exactDue_mono {streamDuration duration : ℤ} (hduration : 0 < duration) {t t' : ℚ}
    (h : t ≤ t') (pts : ℤ) (hdue : exactDue streamDuration duration pts t' = true) :
    exactDue streamDuration duration pts t = true := by
  have hpos : (0 : ℚ) < duration := by exact_mod_cast hduration
  rw [exactDue, decide_eq_true_eq] at hdue ⊢
  refine le_trans ?_ hdue
  exact div_le_div_of_nonneg_right (mul_le_mul_of_nonneg_right h (by norm_num)) hpos.le

/-- In both tables, an index that is due whenever another one is, has an entry no later. -/
theorem entry_mono (hdue : ∀ p, x.due p (x.tm b) = true → x.due p (x.tm a) = true)
    {e : ℕ → Option Entry} (he : x.Table ps e) {cb : Entry} (hb : e b = some cb) :
    ∃ ca, e a = some ca ∧ ca.1 ≤ cb.1 := by
  cases hn : x.firstDue ps b with
  | some n =>
    rcases firstDue_mono hdue hn with ⟨m, hm, hm'⟩
    rw [he.eq_some hn, Option.some_inj] at hb
    refine ⟨_, he.eq_some hm', ?_⟩
    rw [← hb]
    exact Nat.cast_le.2 hm
  | none =>
    rcases he with rfl | rfl
    · rw [x.loopEntry_of_none hn] at hb
      exact absurd hb.symm (Option.some_ne_none _)
    · rw [x.finalEntry_of_none hn, Option.some_inj] at hb
      refine ⟨_, rfl, ?_⟩
      rw [← hb]
      exact le_top

end order

/-- **Earlier times are served no later**, in every run and also when it fails: a time that
is not after one that has been served has been served too, by a frame received no later, and
equal times are served by the same frame. -/
theorem served_mono (x : Context) (hduration : 0 < x.duration) (hexact : x.Exact) {r : ℤ × State}
    (hr : run x = Flow.ret r) {a b : ℕ} (ha : a < x.tms.length)
    (hle : x.tm a ≤ x.tm b) {wb : Written} (hwb : wb ∈ writes r.2.log) (hb : wb.idx = b) :
    (∃ wa ∈ writes r.2.log, wa.idx = a) ∧
      ∀ wa ∈ writes r.2.log, wa.idx = a →
        wa.place ≤ wb.place ∧ (x.tm a = x.tm b → wa.place = wb.place) := by
  rcases (outcome_of_run x hr).exists_served with ⟨ps, e, _, he, hserved, _⟩
  have hmono : ∀ {a b : ℕ}, x.tm a ≤ x.tm b → ∀ p, x.due p (x.tm b) = true →
      x.due p (x.tm a) = true := by
    intro a b hle p hdue
    rw [hexact] at hdue ⊢
    exact exactDue_mono hduration hle p hdue
  have hentry := (hserved.mem wb hwb).2.1
  rw [hb] at hentry
  rcases entry_mono (hmono hle) he hentry with ⟨ca, hca, hplace⟩
  refine ⟨hserved.all a ha ca hca, ?_⟩
  intro wa hwa hwidx
  have hentry' := (hserved.mem wa hwa).2.1
  rw [hwidx] at hentry'
  have hplace' : wa.place = ca.1 := by
    rw [hca, Option.some_inj] at hentry'
    rw [hentry']
  refine ⟨hplace' ▸ hplace, ?_⟩
  intro heq
  rcases entry_mono (hmono heq.ge) he hentry' with ⟨cb, hcb, hback⟩
  rw [hentry, Option.some_inj] at hcb
  rw [← hcb] at hback
  exact le_antisymm (hplace' ▸ hplace) hback

/-- Two equal times are served by the only frame. -/
theorem served_mono_twoTimes :
    ∃ r, run twoTimes = Flow.ret r ∧ ∃ wb ∈ writes r.2.log, wb.idx = 1 ∧
      ∀ wa ∈ writes r.2.log, wa.idx = 0 → wa.place = wb.place := by
  rcases run_eq_ret twoTimes with ⟨r, hr⟩
  have hdue : twoTimes.firstDue twoTimes.framePts 1 = some 0 := by decide +kernel
  rcases (outcome_of_run twoTimes hr).exists_write healthy_healthy.filters (by decide) hdue
    (fun _ _ _ _ => rfl) with ⟨wb, hwb, hb, _⟩
  refine ⟨r, hr, wb, hwb, hb, ?_⟩
  intro wa hwa ha
  exact ((served_mono twoTimes (by decide) rfl hr (a := 0) (by decide)
    (le_of_eq rfl : twoTimes.tm 0 ≤ twoTimes.tm 1) hwb hb).2 wa hwa ha).2 rfl

/-! ## The frame that is asked for -/

/-- A time stamp has reached the requested time. -/
def Context.reaches (x : Context) (idx : ℕ) (p : ℤ) : Bool := x.due p (x.tm idx)

/-- The frame that a time asks for, when the decoder still holds the frames `held` at the end
of the packets: the first decoded frame whose own time stamp has reached the time, or else
the last frame of the stream. -/
def wanted (x : Context) (es : List Event) (held : List Frame) (idx : ℕ) : Option ℕ :=
  firstOrLast (x.reaches idx)
    ((receivedFrames es).map (fun received => received.2.pts) ++ held.map Frame.pts)

/-- The time stamps of the frames received: of the packet sent last, and their own. -/
def stamps (es : List Event) : List (ℤ × ℤ) :=
  (receivedFrames es).map fun received => (received.1, received.2.pts)

/-- What is written for an index is the picture of the frame that its time asks for, and when
no call fails it is written. -/
structure Correct (x : Context) (es : List Event) (held : List Frame) (idx : ℕ)
    (r : ℤ × State) : Prop where
  right : ∀ w ∈ writes r.2.log, w.idx = idx → w.code = 0 →
    ∃ i, wanted x es held idx = some i ∧ w.picture = some ⟨i, x.needResize⟩
  written : x.ffmpeg.Healthy → wanted x es held idx ≠ none →
    ∃ w ∈ writes r.2.log, w.idx = idx ∧ w.code = 0

theorem agree_stamps_iff {x : Context} {es : List Event} {held : List Frame} {idx : ℕ} :
    Agree (x.reaches idx) (stamps es) (held.map Frame.pts) ↔
      firstOrLast (x.reaches idx) (framePts es) = wanted x es held idx := by
  rw [agree_iff, stamps, List.map_map, List.map_map]
  exact Iff.rfl

/-! ## The picture that is written -/

namespace Context
variable (x : Context) (ps : List ℤ) (idx : ℕ)

/-- The filters have been passed before: for an earlier index that the same frame serves, or,
when no packet reaches the time, for any index that the last frame serves. -/
def Lost : Prop :=
  match x.firstDue ps idx with
  | some n => x.Taken ps n idx
  | none => x.Taken ps (ps.length - 1) x.tms.length

instance : Decidable (x.Lost ps idx) :=
  match h : x.firstDue ps idx with
  | some n => decidable_of_iff (x.Taken ps n idx) (by rw [Lost, h])
  | none => decidable_of_iff (x.Taken ps (ps.length - 1) x.tms.length) (by rw [Lost, h])

/-- The picture that an index is written with, for the packet times `ps`. -/
def chosen : Slot :=
  match x.firstDue ps idx with
  | some n => x.loopPicture ps n idx
  | none => x.fallbackPicture ps

variable {ps idx}

theorem chosen_of_some {n : ℕ} (h : x.firstDue ps idx = some n) :
    x.chosen ps idx = x.loopPicture ps n idx := by rw [chosen, h]

theorem chosen_of_none (h : x.firstDue ps idx = none) :
    x.chosen ps idx = x.fallbackPicture ps := by rw [chosen, h]

theorem finalEntry_picture {c : Entry} (h : x.finalEntry ps idx = some c) :
    c.2 = x.chosen ps idx := by
  cases hdue : x.firstDue ps idx with
  | some n =>
    rw [x.finalEntry_of_some hdue, Option.some_inj] at h
    rw [← h, x.chosen_of_some hdue]
  | none =>
    rw [x.finalEntry_of_none hdue, Option.some_inj] at h
    rw [← h, x.chosen_of_none hdue]

/-- The frames received later make no difference to what the loop has written. -/
theorem loopEntry_picture {qs : List ℤ} (hpre : ps <+: qs) {c : Entry}
    (h : x.loopEntry ps idx = some c) : c.2 = x.chosen qs idx := by
  cases hdue : x.firstDue ps idx with
  | none =>
    rw [x.loopEntry_of_none hdue] at h
    exact absurd h.symm (Option.some_ne_none c)
  | some n =>
    rw [x.loopEntry_of_some hdue, Option.some_inj] at h
    rw [← h, x.chosen_of_some (x.firstDue_of_isPrefix hpre hdue)]
    rcases hpre with ⟨rest, rfl⟩
    exact (x.loopPicture_append ps rest (x.firstDue_lt hdue) idx).symm

variable (ps idx) in
/-- **The picture written** is that of the first frame received with a packet that has reached
the time, or of the last one received, unless it is lost in the filters. -/
theorem chosen_eq :
    x.chosen ps idx = if x.needResize = true ∧ x.Lost ps idx then none
      else (firstOrLast (x.reaches idx) ps).bind x.pictureOf := by
  have hfirst : ps.findIdx? (x.reaches idx) = x.firstDue ps idx := rfl
  cases hdue : x.firstDue ps idx with
  | some n =>
    simp only [x.chosen_of_some hdue, loopPicture, Lost, hdue, firstOrLast, hfirst,
      Option.some_or, Option.bind_some]
  | none =>
    simp only [x.chosen_of_none hdue, fallbackPicture, refAfter, Lost, hdue, firstOrLast, hfirst,
      Option.none_or]
    cases ps.length with
    | zero => simp
    | succ n =>
      simp only [Nat.succ_ne_zero, if_false, Nat.add_sub_cancel, Option.bind_some]
      split_ifs <;> rfl

end Context

/-! ## The writer -/

theorem WriteStep.code_ne_zero (step : WriteStep) : step.code ≠ 0 := by
  cases step <;> decide

theorem write_empty_ne_zero (ok : WriteStep → Bool) : write ok none ≠ 0 := by
  rw [write]
  cases hstep : WriteStep.all.find? fun step =>
      !ok step || (step == .open2 && (none : Slot).isNone) with
  | none =>
    have hopen := List.find?_eq_none.1 hstep .open2 (by decide)
    simp at hopen
  | some step => exact step.code_ne_zero

theorem write_picture {ok : WriteStep → Bool} (hok : ∀ step, ok step = true) (picture : Picture) :
    write ok (some picture) = 0 := by
  have hnone : (WriteStep.all.find? fun step =>
      !ok step || (step == .open2 && (some picture).isNone)) = none :=
    List.find?_eq_none.2 fun step _ => by simp [hok step]
  rw [write, hnone]

section result
variable {x : Context} {r : ℤ × State}

/-- Every write of a run is made with the picture chosen. -/
theorem Outcome.picture_eq (h : Outcome x r) {w : Written} (hw : w ∈ writes r.2.log) :
    w.picture = x.chosen x.framePts w.idx := by
  cases h with
  | left ps hps served => exact x.loopEntry_picture hps (served.mem w hw).2.1
  | reached ps hps served => exact x.loopEntry_picture hps (served.mem w hw).2.1
  | fell served => exact x.finalEntry_picture (served.mem w hw).2.1

theorem Outcome.code_eq (h : Outcome x r) {w : Written} (hw : w ∈ writes r.2.log) :
    ∃ log, w.code = write (x.ffmpeg.writeOk log) w.picture := by
  rcases h.exists_served with ⟨_, _, _, _, hserved, _⟩
  exact (hserved.mem w hw).2.2

/-- When no call fails and no packet is rejected, every index is written for which a picture is
chosen. -/
theorem Outcome.exists_write_chosen (h : Outcome x r) (hh : x.ffmpeg.Healthy)
    (haccepts : x.Accepts) {idx : ℕ} (hidx : idx < x.tms.length)
    (hchosen : x.chosen x.framePts idx ≠ none) : ∃ w ∈ writes r.2.log, w.idx = idx := by
  cases hdue : x.firstDue x.framePts idx with
  | some n =>
    rcases h.exists_write hh.filters hidx hdue (fun _ m _ _ => hh.ref m) with ⟨w, hw, hwidx, _⟩
    exact ⟨w, hw, hwidx⟩
  | none =>
    cases h with
    | left ps _ _ _ _ _ hhalts =>
      exfalso
      cases hhalts hh.filters with
      | atEnd hall hcause =>
        rcases hcause with hrejects | hempty
        · exact hrejects haccepts
        · rw [x.chosen_of_none hdue, Context.fallbackPicture, ← hall, hempty.2] at hchosen
          exact hchosen rfl
      | unreferenced _ _ hfails =>
        rw [hh.ref] at hfails
        exact Bool.noConfusion hfails
    | reached ps hps _ _ _ _ every =>
      exfalso
      rcases Option.ne_none_iff_exists'.1 (every idx hidx) with ⟨n, hn⟩
      rw [x.firstDue_of_isPrefix hps hn] at hdue
      exact Option.some_ne_none n hdue
    | fell served => exact served.all idx hidx _ rfl

end result

/-! ## When the right picture is written -/

section correct
variable {x : Context} {es : List Event} {held : List Frame} {idx : ℕ} {r : ℤ × State}

/-- Where the time stamps agree and no picture is lost, the picture written is that of the
frame asked for. -/
theorem chosen_eq_wanted
    (hagree : Agree (x.reaches idx) (stamps es) (held.map Frame.pts))
    (hkept : x.needResize = true → ¬ x.Lost (framePts es) idx) :
    x.chosen (framePts es) idx = (wanted x es held idx).bind x.pictureOf := by
  rw [x.chosen_eq, if_neg fun hc => hkept hc.1 hc.2, agree_stamps_iff.1 hagree]

/-- There the right picture is written, whatever FFmpeg answers. -/
theorem correct_of_agree (hes : x.events = some es) (hnone : NoneRejected es)
    (hidx : idx < x.tms.length)
    (hagree : Agree (x.reaches idx) (stamps es) (held.map Frame.pts))
    (hkept : x.needResize = true → ¬ x.Lost (framePts es) idx) (hr : run x = Flow.ret r) :
    Correct x es held idx r := by
  have houtcome := outcome_of_run x hr
  have hpts := x.framePts_of_events hes
  have hchosen := chosen_eq_wanted hagree hkept
  refine ⟨?right, ?written⟩
  case right =>
    intro w hw hwidx hcode
    have hpicture := houtcome.picture_eq hw
    rw [hwidx, hpts, hchosen] at hpicture
    rcases houtcome.code_eq hw with ⟨log, hwrite⟩
    cases hpic : w.picture with
    | none =>
      rw [hpic, hcode] at hwrite
      exact absurd hwrite.symm (write_empty_ne_zero _)
    | some picture =>
      rw [hpic, eq_comm, Option.bind_eq_some_iff] at hpicture
      rcases hpicture with ⟨i, hi, hof⟩
      refine ⟨i, hi, ?_⟩
      rw [← hof]
      cases hok : x.ffmpeg.refOk i with
      | true => exact x.pictureOf_of_ok hok
      | false =>
        rw [x.pictureOf_of_not_ok hok] at hof
        exact absurd hof.symm (Option.some_ne_none picture)
  case written =>
    intro hh hwanted
    rcases Option.ne_none_iff_exists'.1 hwanted with ⟨i, hi⟩
    rw [hi, Option.bind_some, x.pictureOf_of_ok (hh.ref i), ← hpts] at hchosen
    rcases houtcome.exists_write_chosen hh ⟨es, hes, hnone⟩ hidx (by simp [hchosen])
      with ⟨w, hw, hwidx⟩
    refine ⟨w, hw, hwidx, ?_⟩
    rcases houtcome.code_eq hw with ⟨log, hwrite⟩
    rw [hwrite, houtcome.picture_eq hw, hwidx, hchosen]
    exact write_picture (hh.write log) _

/-- When no call fails, the right picture is written only there. -/
theorem agree_of_correct (hh : x.ffmpeg.Healthy) (hes : x.events = some es)
    (hr : run x = Flow.ret r) (hcorrect : Correct x es held idx r) :
    Agree (x.reaches idx) (stamps es) (held.map Frame.pts) ∧
      (x.needResize = true → ¬ x.Lost (framePts es) idx) := by
  have hpts := x.framePts_of_events hes
  rw [agree_stamps_iff]
  cases hwanted : wanted x es held idx with
  | none =>
    have hreceived := (List.append_eq_nil_iff.1 (firstOrLast_eq_none_iff.1 hwanted)).1
    have hempty : framePts es = [] := by
      rw [framePts, List.map_eq_nil_iff]
      exact List.map_eq_nil_iff.1 hreceived
    rw [hempty]
    refine ⟨rfl, fun _ hlost => ?_⟩
    rcases hlost with ⟨_, _, hdue⟩
    exact absurd hdue (by simp [Context.firstDue])
  | some i =>
    rcases hcorrect.written hh (by simp [hwanted]) with ⟨w, hw, hwidx, hcode⟩
    rcases hcorrect.right w hw hwidx hcode with ⟨j, hj, hpicture⟩
    rw [(outcome_of_run x hr).picture_eq hw, hwidx, hpts, x.chosen_eq] at hpicture
    split_ifs at hpicture with hlost
    · refine ⟨?_, fun hresize hl => hlost ⟨hresize, hl⟩⟩
      rw [Option.bind_eq_some_iff] at hpicture
      rcases hpicture with ⟨n, hn, hof⟩
      rw [x.pictureOf_of_ok (hh.ref n), Option.some_inj, Picture.mk.injEq] at hof
      rw [hn, hof.1, ← hj, hwanted]

end correct

/-- **The right picture is written for a requested time, whatever FFmpeg answers, exactly when
the time stamps of the packets and of the frames agree on the time, and the picture is not
lost in the filters.** -/
theorem correct_iff (x : Context) {es : List Event} (hes : x.events = some es)
    (hnone : NoneRejected es) (held : List Frame) {idx : ℕ} (hidx : idx < x.tms.length) :
    (∀ ffmpeg r, run { x with ffmpeg := ffmpeg } = Flow.ret r →
      Correct { x with ffmpeg := ffmpeg } es held idx r) ↔
    Agree (x.reaches idx) (stamps es) (held.map Frame.pts) ∧
      (x.needResize = true → ¬ x.Lost (framePts es) idx) := by
  constructor
  · intro hcorrect
    rcases run_eq_ret { x with ffmpeg := healthy } with ⟨r, hr⟩
    exact agree_of_correct (x := { x with ffmpeg := healthy }) healthy_healthy hes hr
      (hcorrect healthy r hr)
  · intro hx ffmpeg r hr
    exact correct_of_agree (x := { x with ffmpeg := ffmpeg }) hes hnone hidx hx.1 hx.2 hr

/-- One thumbnail at 40 ms of a video of 120 ms, whose packets give the frames `es`. -/
def oneTime (es : List Event) : Context where
  tms := [40]
  metadata := none
  width := 0
  streamDuration := 120
  duration := 120000
  due := exactDue 120 120000
  seek := fun _ => some es
  ffmpeg := healthy

/-- Frames without delay. -/
def prompt : List Event := [.accepted 0 [⟨0⟩], .accepted 40 [⟨40⟩], .accepted 80 [⟨80⟩]]

/-- The packet of the frame at 80 ms is the second one, and the decoder waits for one packet
more: the frame at 0 ms comes out after the packet of 80 ms. -/
def delayed : List Event := [.accepted 0 [], .accepted 80 [⟨0⟩], .accepted 40 [⟨40⟩]]

/-- Without delay the frame at 40 ms is written. -/
theorem correct_iff_prompt :
    ∃ r, run (oneTime prompt) = Flow.ret r ∧ Correct (oneTime prompt) prompt [] 0 r := by
  rcases run_eq_ret (oneTime prompt) with ⟨r, hr⟩
  refine ⟨r, hr, ?_⟩
  refine (correct_iff (oneTime prompt) rfl ?_ [] (by decide)).2 ⟨?_, ?_⟩ healthy r hr
  · simp [NoneRejected, prompt]
  · rw [agree_iff]
    decide +kernel
  · intro hresize
    exact absurd hresize (by decide)

/-- With a delay of one packet, the frame at 0 ms is written instead. -/
theorem not_correct_delayed : ∃ r, run (oneTime delayed) = Flow.ret r ∧
    ¬ Correct (oneTime delayed) delayed [⟨80⟩] 0 r ∧
    ∃ w ∈ writes r.2.log, w.idx = 0 ∧ w.picture = some ⟨0, false⟩ := by
  rcases run_eq_ret (oneTime delayed) with ⟨r, hr⟩
  have hchosen : (oneTime delayed).chosen (framePts delayed) 0 = some ⟨0, false⟩ := by
    decide +kernel
  refine ⟨r, hr, ?_, ?_⟩
  · intro hcorrect
    have hagree := (agree_of_correct healthy_healthy rfl hr hcorrect).1
    rw [agree_iff] at hagree
    exact absurd hagree (by decide +kernel)
  · have houtcome := outcome_of_run (oneTime delayed) hr
    have haccepts : (oneTime delayed).Accepts := ⟨delayed, rfl, by simp [NoneRejected, delayed]⟩
    have hidx : 0 < (oneTime delayed).tms.length := by decide
    rcases houtcome.exists_write_chosen healthy_healthy haccepts hidx
      (ne_of_eq_of_ne hchosen (Option.some_ne_none _)) with ⟨w, hw, hwidx⟩
    refine ⟨w, hw, hwidx, ?_⟩
    rw [houtcome.picture_eq hw, hwidx]
    exact hchosen

end AudioCrash.Video
