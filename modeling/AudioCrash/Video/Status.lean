import AudioCrash.Video.Threads

/-!
# The status of a run

A run that returns 0 has called `write` for every requested time. It may still have written
nothing: the times that no frame reaches are served by whatever the filters have left in
`ref_frame`, and the codes of `write` and `make_flt` are dropped.

## Main definitions

* `ServesRest`, `servesRest_iff` — when the last frame serves the times that are not reached.
* `makeFlt`, `runAll` — the graph and the run, from the first statement on.
* `Reported`, `reported_iff` — when every failure reaches the status.
-/

namespace AudioCrash.Video

/-! ## The times that are not reached -/

/-- The run returns 0, and has written the last frame that it has decoded for every time that lies
beyond all frames that it has decoded, by their own time stamps. -/
def ServesRest (x : Context) (r : ℤ × State) : Prop :=
  r.1 = 0 ∧ ∀ idx < x.tms.length,
    (∀ f ∈ x.received.take r.2.received, x.due f.2.pts (x.tm idx) = false) →
    ∃ w ∈ writes r.2.log, w.idx = idx ∧
      w.picture = some ⟨r.2.received - 1, x.needResize⟩ ∧ w.code = 0

/-! ### The frames decoded -/

section decoded
variable {x : Context} {r : ℤ × State}

theorem receivedFrames_isPrefix (es es' : List Event) :
    receivedFrames es <+: receivedFrames (es ++ es') := by
  induction es with
  | nil => exact List.nil_prefix
  | cons e es ih =>
    cases e with
    | other => exact ih
    | rejected pts => exact List.prefix_refl _
    | accepted pts frames => exact (List.prefix_append_right_inj _).2 ih

theorem Context.read_isPrefix (x : Context) (ps : List ℤ) (es : List Event) :
    x.read ps es <+: es := by
  induction es generalizing ps with
  | nil => exact List.prefix_refl _
  | cons e es ih =>
    rw [Context.read]
    split_ifs
    · exact List.nil_prefix
    · exact List.cons_prefix_cons.2 ⟨rfl, ih _⟩

theorem Context.decoded_isPrefix (x : Context) : x.decoded <+: x.received := by
  rw [Context.decoded, Context.received]
  cases x.events with
  | none => exact List.prefix_refl _
  | some es =>
    rcases x.read_isPrefix [] es with ⟨rest, hrest⟩
    have hpre := receivedFrames_isPrefix (x.read [] es) rest
    rw [hrest] at hpre
    exact hpre

theorem Context.decodedPts_isPrefix (x : Context) : x.decodedPts <+: x.framePts := by
  have hpts : x.framePts = x.received.map Prod.fst := by
    rw [Context.framePts, Context.received]
    cases x.events <;> rfl
  rw [hpts]
  exact x.decoded_isPrefix.map Prod.fst

/-- While an index is not due, everything is read. -/
theorem Context.read_eq_self {es : List Event} (hnone : NoneRejected es) (ps : List ℤ)
    (h : ∃ idx < x.tms.length, x.firstDue (ps ++ Video.framePts (x.read ps es)) idx = none) :
    x.read ps es = es := by
  induction es generalizing ps with
  | nil => rfl
  | cons e es ih =>
    rcases h with ⟨idx, hidx, hdue⟩
    have hhead : NoneRejected [e] := by
      intro e' he'
      rw [List.mem_singleton.1 he']
      exact hnone e List.mem_cons_self
    have hpending : x.firstDue ps idx = none := by
      by_contra hsome
      rcases Option.ne_none_iff_exists'.1 hsome with ⟨n, hn⟩
      rw [x.firstDue_of_isPrefix (List.prefix_append _ _) hn] at hdue
      exact Option.some_ne_none n hdue
    have hread := x.read_cons_of_pending ⟨idx, hidx, hpending⟩ e es
    rw [hread, ← List.singleton_append, framePts_append hhead, ← List.append_assoc] at hdue
    rw [hread, ih (fun e' he' => hnone e' (List.mem_cons_of_mem e he')) _ ⟨idx, hidx, hdue⟩]

/-- A run that does not reach every time decodes all frames. -/
theorem Context.decodedPts_eq (haccepts : x.Accepts)
    (h : ∃ idx < x.tms.length, x.firstDue x.decodedPts idx = none) :
    x.decodedPts = x.framePts := by
  rcases haccepts with ⟨es, hes, hnone⟩
  rw [x.decodedPts_of_events hes] at h ⊢
  rw [x.framePts_of_events hes, x.read_eq_self hnone [] h]

/-- A run that returns 0 has decoded these frames. -/
theorem Outcome.received_eq (h : Outcome x r) (hcode : r.1 = 0) :
    r.2.received = x.decodedPts.length ∧ x.received.take r.2.received = x.decoded := by
  have hlength : r.2.received = x.decodedPts.length := by
    cases h with
    | left _ _ _ _ hne => exact absurd hcode hne
    | reached _ _ _ _ _ _ _ hreads hreceived => rw [hreceived, hreads]
    | fell _ _ _ _ _ hreads hreceived => rw [hreceived, hreads]
  refine ⟨hlength, ?_⟩
  rw [hlength, Context.decodedPts, List.length_map]
  exact (List.prefix_iff_eq_take.1 x.decoded_isPrefix).symm

/-- Every write of a run that returns 0 is made with the picture chosen from the frames that it has
decoded. -/
theorem Outcome.picture_eq_decoded (h : Outcome x r) (hcode : r.1 = 0) {w : Written}
    (hw : w ∈ writes r.2.log) : w.picture = x.chosen x.decodedPts w.idx := by
  cases h with
  | left _ _ _ _ hne => exact absurd hcode hne
  | reached ps hps served _ _ _ _ hreads =>
    rw [← hreads]
    exact x.loopEntry_picture (List.prefix_refl ps) (served.mem w hw).2.1
  | fell served _ _ _ _ hreads =>
    rw [← hreads]
    exact x.finalEntry_picture (served.mem w hw).2.1

end decoded

/-! ### When the last frame serves the rest -/

section rest
variable {x : Context}

/-- With a frame decoded, a run comes to its end unless a packet is rejected or the filters have
taken the last frame, before all times are reached. -/
theorem Context.completes_iff (hh : x.ffmpeg.Healthy) (hne : x.decodedPts ≠ []) :
    (∃ es, x.events = some es ∧ x.Completes es) ↔
      (∀ idx < x.tms.length, x.firstDue x.decodedPts idx ≠ none) ∨
        x.Accepts ∧ (x.needResize = true →
          ¬ x.Taken x.decodedPts (x.decodedPts.length - 1) x.tms.length) := by
  have hseeks : ∃ es, x.events = some es := by
    rw [← Option.ne_none_iff_exists']
    intro hnone
    rw [Context.decodedPts, Context.decoded, hnone] at hne
    exact hne rfl
  rcases hseeks with ⟨es, hes⟩
  have hpts := x.framePts_of_events hes
  constructor
  · intro hcompletes
    rcases run_eq_ret x with ⟨r, hr⟩
    have houtcome := outcome_of_run x hr
    have hcode := (houtcome.code_eq_zero_iff hh.filters).2 hcompletes
    cases houtcome with
    | left _ _ _ _ hleft => exact absurd hcode hleft
    | reached _ _ _ _ _ _ hevery hreads => exact Or.inl (hreads ▸ hevery)
    | fell _ _ _ haccepts hpicture hreads =>
      refine Or.inr ⟨haccepts, fun hresize htaken => hpicture hresize ?_⟩
      rw [← hreads] at htaken
      exact (Context.refAfter_eq_none_iff hresize _).2 (Or.inr (Or.inl htaken))
  · intro hcond
    refine ⟨es, hes, ?_, fun _ n _ => hh.ref n⟩
    by_cases hall : ∀ idx < x.tms.length, x.firstDue x.decodedPts idx ≠ none
    · refine Or.inl fun idx hidx => ?_
      rcases Option.ne_none_iff_exists'.1 (hall idx hidx) with ⟨n, hn⟩
      rw [← hpts, x.firstDue_of_isPrefix x.decodedPts_isPrefix hn]
      exact Option.some_ne_none n
    · rcases hcond.resolve_left hall with ⟨haccepts, hkept⟩
      push Not at hall
      have hdecoded := Context.decodedPts_eq haccepts hall
      refine Or.inr ⟨(Context.accepts_iff hes).1 haccepts, fun hresize hempty => ?_⟩
      rw [← hpts, ← hdecoded, Context.refAfter_eq_none_iff hresize] at hempty
      rcases hempty with hnil | htaken | hfails
      · exact hne hnil
      · exact hkept hresize htaken
      · rw [hh.ref] at hfails
        exact Bool.noConfusion hfails

/-- The last of the frames is chosen when no picture is lost, and no earlier frame reaches the
time. -/
theorem Context.chosen_eq_last_iff (hh : x.ffmpeg.Healthy) {ps : List ℤ} (hne : ps ≠ [])
    (idx : ℕ) :
    x.chosen ps idx = some ⟨ps.length - 1, x.needResize⟩ ↔
      ¬ (x.needResize = true ∧ x.Lost ps idx) ∧
        ∀ n, x.firstDue ps idx = some n → n = ps.length - 1 := by
  have hlength := List.length_pos_of_ne_nil hne
  have hfind : ps.findIdx? (x.reaches idx) = x.firstDue ps idx := rfl
  rw [x.chosen_eq]
  by_cases hlost : x.needResize = true ∧ x.Lost ps idx
  · rw [if_pos hlost]
    exact iff_of_false (Option.some_ne_none _).symm fun h => h.1 hlost
  · rw [if_neg hlost, and_iff_right hlost, firstOrLast, hfind]
    cases hdue : x.firstDue ps idx with
    | some n =>
      rw [Option.some_or, Option.bind_some, x.pictureOf_of_ok (hh.ref n)]
      simp
    | none =>
      rw [Option.none_or, if_neg hlength.ne', Option.bind_some,
        x.pictureOf_of_ok (hh.ref (ps.length - 1))]
      simp

/-- A time is beyond the frames. -/
theorem Context.beyond_iff (idx : ℕ) :
    (∀ f ∈ x.decoded, x.due f.2.pts (x.tm idx) = false) ↔
      x.firstDue x.decodedTimes idx = none := by
  rw [Context.firstDue, List.findIdx?_eq_none_iff, Context.decodedTimes, List.forall_mem_map]

/-- What a run that returns 0 writes, when no call fails. -/
theorem Outcome.writes_last_iff {r : ℤ × State} (h : Outcome x r) (hh : x.ffmpeg.Healthy)
    (hne : x.decodedPts ≠ []) (hcode : r.1 = 0) {idx : ℕ} (hidx : idx < x.tms.length) :
    (∃ w ∈ writes r.2.log, w.idx = idx ∧
      w.picture = some ⟨r.2.received - 1, x.needResize⟩ ∧ w.code = 0) ↔
      ∀ n, x.firstDue x.decodedPts idx = some n → n = x.decodedPts.length - 1 ∧
        (x.needResize = true → ¬ x.Taken x.decodedPts n idx) := by
  have hwritten : (∃ w ∈ writes r.2.log, w.idx = idx ∧
      w.picture = some ⟨r.2.received - 1, x.needResize⟩ ∧ w.code = 0) ↔
      x.chosen x.decodedPts idx = some ⟨x.decodedPts.length - 1, x.needResize⟩ := by
    rw [(h.received_eq hcode).1]
    constructor
    · rintro ⟨w, hw, rfl, hpicture, -⟩
      rw [← h.picture_eq_decoded hcode hw, hpicture]
    · intro hchosen
      rcases List.mem_map.1 (h.all_written hcode idx hidx) with ⟨w, hw, rfl⟩
      have hpicture := (h.picture_eq_decoded hcode hw).trans hchosen
      rcases h.code_eq hw with ⟨log, hwrite⟩
      refine ⟨w, hw, rfl, hpicture, ?_⟩
      rw [hwrite, hpicture]
      exact write_picture (hh.write log) _
  rw [hwritten, Context.chosen_eq_last_iff hh hne]
  cases hdue : x.firstDue x.decodedPts idx with
  | some n =>
    have hlost : x.Lost x.decodedPts idx ↔ x.Taken x.decodedPts n idx := by
      rw [Context.Lost, hdue]
    simp only [Option.some_inj, forall_eq', hlost, not_and]
    exact and_comm
  | none =>
    have hlost : x.Lost x.decodedPts idx ↔
        x.Taken x.decodedPts (x.decodedPts.length - 1) x.tms.length := by
      rw [Context.Lost, hdue]
    refine iff_of_true ⟨fun hc => ?_, nofun⟩ nofun
    rcases (Context.completes_iff hh hne).1 (h.completes hcode) with hall | ⟨-, hkept⟩
    · exact hall idx hidx hdue
    · exact hkept hc.1 (hlost.1 hc.2)

end rest

/-- **The times beyond all frames are served by the last frame exactly when** the run comes to its
end, and no such time is reached by the packet sent with an earlier frame, or, with filters, by
that of the last frame together with an earlier index. -/
theorem servesRest_iff (x : Context) (hh : x.ffmpeg.Healthy) (hne : x.decodedPts ≠ []) :
    (∃ r, run x = Flow.ret r ∧ ServesRest x r) ↔
      ((∀ idx < x.tms.length, x.firstDue x.decodedPts idx ≠ none) ∨
        x.Accepts ∧ (x.needResize = true →
          ¬ x.Taken x.decodedPts (x.decodedPts.length - 1) x.tms.length)) ∧
      ∀ idx < x.tms.length, x.firstDue x.decodedTimes idx = none →
        ∀ n, x.firstDue x.decodedPts idx = some n → n = x.decodedPts.length - 1 ∧
          (x.needResize = true → ¬ x.Taken x.decodedPts n idx) := by
  rw [← Context.completes_iff hh hne]
  rcases run_eq_ret x with ⟨r, hr⟩
  have houtcome := outcome_of_run x hr
  rw [← houtcome.code_eq_zero_iff hh.filters]
  have hrun : (∃ r', run x = Flow.ret r' ∧ ServesRest x r') ↔ ServesRest x r := by
    simp only [hr, Flow.ret.injEq, exists_eq_left']
  rw [hrun, ServesRest]
  refine and_congr_right fun hcode => forall₂_congr fun idx hidx => ?_
  rw [(houtcome.received_eq hcode).2, Context.beyond_iff,
    houtcome.writes_last_iff hh hne hcode hidx]

/-- One thumbnail behind the end of a video of two frames, scaled. -/
def behindEnd (tms : List ℚ) : Context where
  tms := tms
  metadata := none
  width := 300
  streamDuration := 80
  duration := 80000
  due := exactDue 80 80000
  seek := fun _ => some [.accepted 0 [⟨0⟩], .accepted 40 [⟨40⟩]]
  ffmpeg := healthy

/-- A time behind all frames is served by the last one. -/
theorem servesRest_iff_behind :
    ∃ r, run (behindEnd [90]) = Flow.ret r ∧ ServesRest (behindEnd [90]) r :=
  (servesRest_iff (behindEnd [90]) healthy_healthy (by decide +kernel)).2
    ⟨Or.inr ⟨⟨_, rfl, by simp [NoneRejected]⟩, by decide +kernel⟩, by decide +kernel⟩

/-- With a time that the last frame reaches, its picture is lost in the filters for the time
behind it, and the run fails. -/
theorem not_servesRest_mixed :
    ∃ r, run (behindEnd [40, 90]) = Flow.ret r ∧ ¬ ServesRest (behindEnd [40, 90]) r := by
  rcases run_eq_ret (behindEnd [40, 90]) with ⟨r, hr⟩
  refine ⟨r, hr, ?_⟩
  intro hserves
  have hcompletes := (outcome_of_run _ hr).completes hserves.1
  rw [Context.completes_iff healthy_healthy (by decide +kernel)] at hcompletes
  rcases hcompletes with hall | ⟨_, hkept⟩
  · exact hall 1 (by decide) (by decide +kernel)
  · exact hkept rfl (by decide +kernel)

/-! ## The codes that are dropped -/

/-- The steps of `make_flt` that can fail. -/
inductive FltStep where
  | bufferSrc | bufferSink | parse | config
  deriving DecidableEq, Repr

/-- The error code of a step of `make_flt`. -/
def FltStep.code : FltStep → ℤ
  | bufferSrc => -20100
  | bufferSink => -20200
  | parse => -20300
  | config => -20400

/-- The steps of `make_flt`, in order. -/
def FltStep.all : List FltStep := [bufferSrc, bufferSink, parse, config]

/-- `make_flt`: the code of the first step that fails, or 0. -/
def makeFlt (ok : FltStep → Bool) : ℤ :=
  match FltStep.all.find? fun step => !ok step with
  | some step => step.code
  | none => 0

/-- The code of `make_flt` in `make_dump_flt`, which drops it; there is none when no graph is
built. -/
def dumpFltCode (ok : FltStep → Bool) (x : Context) : Option ℤ :=
  (makeDumpFlt (findRotate x.metadata) x.width).map fun _ => makeFlt ok

/-- `VideoThubmnail::run` from its first statement on. The graph is built before the frames are
allocated, and its code is not looked at. -/
def runAll (fails : Option SetUp) (x : Context) : Step State :=
  match fails with
  | some step => Flow.ret (step.code, State.init)
  | none => run x

/-- A frame has been passed to `av_buffersrc_add_frame`: the call succeeded, or the run was left
because it failed. -/
def Pushed (r : ℤ × State) : Prop := r.1 = -540 ∨ .addFrame ∈ r.2.log

/-- Every failure of a helper reaches the status, and no frame is pushed into a graph that has
not been configured. -/
structure Reported (ok : FltStep → Bool) (x : Context) (r : ℤ × State) : Prop where
  graph : ∀ code, dumpFltCode ok x = some code → code ≠ 0 → r.1 ≠ 0 ∧ ¬ Pushed r
  write : ∀ w ∈ writes r.2.log, w.code ≠ 0 → r.1 ≠ 0
  success : r.1 = 0 → ∀ idx < x.tms.length, ∃ w ∈ writes r.2.log, w.idx = idx ∧ w.code = 0

/-- Whatever the helpers do, the run is left by another error first, or has nothing to do: the
seek fails; or a packet is rejected before the graph is used, or, where there is none, before
all times are reached. -/
def Context.LeftFirst (x : Context) : Prop :=
  x.events = none ∨ x.needResize = false ∧ x.tms = [] ∨
    ¬ x.Accepts ∧ x.tms ≠ [] ∧
      if x.needResize = true then ∀ idx < x.tms.length, x.firstDue x.framePts idx = none
      else ∃ idx < x.tms.length, x.firstDue x.framePts idx = none

/-! ### A run that uses the graph -/

section pushed
variable {x : Context} {s : State}

theorem filterFrame_pushed (hresize : x.needResize = true) (s : State) :
    Flow.Holds (fun s' : State => .addFrame ∈ s'.log) Pushed (filterFrame x s) := by
  simp only [filterFrame, hresize, if_true]
  cases s.ref with
  | none => exact Or.inl rfl
  | some picture =>
    dsimp only
    split_ifs
    · exact Or.inl rfl
    · exact Or.inr (by simp)
    · simp

/-- Without a push nothing has been written. -/
def PushedOrStill (s : State) : Prop := .addFrame ∈ s.log ∨ writes s.log = []

theorem PushedOrStill.call (h : PushedOrStill s) {c : Call}
    (hc : writes (s.log ++ [c]) = writes s.log) : PushedOrStill (s.call c) := by
  rcases h with hpush | hstill
  · exact Or.inl (List.mem_append_left _ hpush)
  · exact Or.inr (hc.trans hstill)

/-- One index for a decoded frame: `process` is set by a push. -/
theorem tryIndex_pushed (hresize : x.needResize = true) (pts : ℤ) (idx : ℕ) {q : Bool × State}
    (h : .addFrame ∈ q.2.log ∨ q.1 = false ∧ writes q.2.log = []) :
    Flow.Holds (fun q' : Bool × State => .addFrame ∈ q'.2.log ∨ q'.1 = false ∧ writes q'.2.log = [])
      Pushed (tryIndex x pts idx q) := by
  rcases q with ⟨process, s⟩
  simp only [tryIndex]
  by_cases hcond : (s.needWrite idx && x.due pts (x.tm idx)) = true
  · rw [if_pos hcond]
    refine Flow.Holds.bind (P := fun s' : State => .addFrame ∈ s'.log) ?_ fun s' hs =>
      Or.inl (List.mem_append_left _ hs)
    cases process with
    | true => exact h.resolve_right fun hc => Bool.noConfusion hc.1
    | false => exact filterFrame_pushed hresize s
  · rw [if_neg hcond]
    exact h

theorem onFrame_pushed (hresize : x.needResize = true) (pts : ℤ) (f : Frame)
    (h : PushedOrStill s) : Flow.Holds PushedOrStill Pushed (onFrame x pts f s) := by
  refine Flow.Holds.bind (Flow.holds_forEach_const _ ?_ fun idx q hq =>
    tryIndex_pushed hresize pts idx hq) fun q hq => ?_
  · rcases h with hpush | hstill
    · exact Or.inl hpush
    · exact Or.inr ⟨rfl, hstill⟩
  · rcases hq with hpush | ⟨_, hstill⟩
    · exact Or.inl hpush
    · exact Or.inr hstill

/-- What a run without a push ends with. -/
def PushedOrLeft (x : Context) (r : ℤ × State) : Prop :=
  Pushed r ∨ writes r.2.log = [] ∧ (r.1 = 0 ∨ ¬ x.Accepts)

theorem onPacket_pushed (hresize : x.needResize = true) {es : List Event} (hes : x.events = some es)
    {e : Event} (he : e ∈ es) (h : PushedOrStill s) :
    Flow.Holds PushedOrStill (PushedOrLeft x) (onPacket x e s) := by
  have hread := h.call (writes_readFrame s.log)
  cases e with
  | other => exact hread.call (writes_unref _)
  | rejected pts =>
    rcases hread with hpush | hstill
    · exact Or.inl (Or.inr hpush)
    · refine Or.inr ⟨hstill, Or.inr ?_⟩
      rw [Context.accepts_iff hes]
      intro hnone
      exact hnone _ he pts rfl
  | accepted pts frames =>
    refine Flow.Holds.bind ((Flow.holds_forEach_const frames hread fun f s hs =>
      onFrame_pushed hresize pts f hs).imp_ret fun _ hr => Or.inl hr) fun s hs => ?_
    exact hs.call (writes_unref _)

theorem fallback_pushed (hresize : x.needResize = true) (s : State) :
    Flow.Holds (fun s' : State => .addFrame ∈ s'.log) (PushedOrLeft x) (fallback x s) := by
  refine Flow.Holds.bind ((filterFrame_pushed hresize s).imp_ret
    fun _ hr => Or.inl hr) fun s hs => ?_
  refine Flow.Holds.bind (Flow.holds_forEach_const _ hs fun idx s hs => ?_) fun s hs => hs
  simp only [fallbackIndex]
  split_ifs
  · exact List.mem_append_left _ hs
  · exact hs

/-- **A run that uses a graph pushes a frame into it**, unless it is left before, or has nothing
to write. -/
theorem run_pushed (hresize : x.needResize = true) {r : ℤ × State} (hr : run x = Flow.ret r) :
    PushedOrLeft x r := by
  have hrun : Flow.Holds (fun _ => False) (PushedOrLeft x) (run x) := by
    cases hes : x.events with
    | none =>
      simp only [run, hes]
      refine Or.inr ⟨rfl, Or.inr fun haccepts => ?_⟩
      rcases haccepts with ⟨es, hes', _⟩
      rw [hes] at hes'
      exact Option.some_ne_none es hes'.symm
    | some es =>
      simp only [run, hes]
      refine Flow.Holds.bind (Flow.holds_forEachWhile (fun _ => PushedOrStill) es (d := [])
        (Or.inr rfl) fun done e rest s hsplit _ hs => ?_) fun s hs => ?_
      · rw [List.nil_append] at hsplit
        exact onPacket_pushed hresize hes (by simp [hsplit]) hs
      · rcases hs with ⟨_, _, _, hs, _⟩
        refine Flow.Holds.bind (P := PushedOrStill) ?_ fun s hs => ?_
        · split_ifs
          · exact (fallback_pushed hresize s).imp_next fun _ hs => Or.inl hs
          · exact hs
        · rcases hs with hpush | hstill
          · exact Or.inl (Or.inr hpush)
          · exact Or.inr ⟨hstill, Or.inl rfl⟩
  rwa [hr, Flow.holds_ret] at hrun

end pushed

/-! ### A run that reaches no time -/

section quiet
variable {x : Context} {s : State}

/-- Nothing has been written, and nothing passed to the graph. -/
def Quiet (s : State) : Prop := s.haveWrite = 0 ∧ .addFrame ∉ s.log ∧ writes s.log = []

theorem onFrame_quiet {pts : ℤ} (hdue : ∀ idx < x.tms.length, x.due pts (x.tm idx) = false)
    (f : Frame) (h : Quiet s) : Flow.Holds Quiet (fun _ => False) (onFrame x pts f s) := by
  refine Flow.Holds.bind (P := fun q : Bool × State => Quiet q.2) (Flow.holds_forEach_range
    (fun _ (q : Bool × State) => Quiet q.2) x.tms.length h fun idx hidx q hq => ?_) fun q hq => hq
  rcases q with ⟨process, s⟩
  simp only [tryIndex, hdue idx hidx, Bool.and_false, Bool.false_eq_true, if_false]
  exact hq

theorem Quiet.call (h : Quiet s) {c : Call} (hc : writes (s.log ++ [c]) = writes s.log)
    (hne : c ≠ .addFrame) : Quiet (s.call c) := by
  rcases h with ⟨hhave, hpush, hwrites⟩
  refine ⟨hhave, ?_, hc.trans hwrites⟩
  rw [State.call_log, List.mem_append, List.mem_singleton]
  intro hmem
  rcases hmem with hmem | rfl
  · exact hpush hmem
  · exact hne rfl

theorem onPacket_quiet {es done rest : List Event} {e : Event} (hsplit : es = done ++ e :: rest)
    (hdue : ∀ idx < x.tms.length, x.firstDue (framePts es) idx = none) (hnone : NoneRejected done)
    (h : Quiet s) :
    Flow.Holds (fun s => NoneRejected (done ++ [e]) ∧ Quiet s)
      (fun r : ℤ × State => r.1 = -600 ∧ Quiet r.2) (onPacket x e s) := by
  have hread := h.call (writes_readFrame s.log) nofun
  cases e with
  | other => exact ⟨hnone.concat nofun, hread.call (writes_unref _) nofun⟩
  | rejected pts => exact ⟨rfl, hread⟩
  | accepted pts frames =>
    refine Flow.Holds.bind (P := Quiet) ?_ fun s hs =>
      ⟨hnone.concat nofun, hs.call (writes_unref _) nofun⟩
    cases frames with
    | nil => exact hread
    | cons f frames =>
      have hmem : pts ∈ framePts es := by
        rw [hsplit, framePts_append hnone, framePts_accepted]
        simp
      refine (Flow.holds_forEach_const _ hread fun f s hs =>
        onFrame_quiet (fun idx hidx => ?_) f hs).imp_ret fun _ hr => hr.elim
      have hnot := List.findIdx?_eq_none_iff.1 (hdue idx hidx) pts hmem
      simpa using hnot

/-- **A run that reaches no time is left by the rejected packet.** -/
theorem run_quiet {es : List Event} (hes : x.events = some es) (hrejected : ¬ NoneRejected es)
    (htms : x.tms ≠ []) (hdue : ∀ idx < x.tms.length, x.firstDue (framePts es) idx = none)
    {r : ℤ × State} (hr : run x = Flow.ret r) : r.1 = -600 ∧ Quiet r.2 := by
  have hrun : Flow.Holds (fun _ => False) (fun r : ℤ × State => r.1 = -600 ∧ Quiet r.2)
      (run x) := by
    simp only [run, hes]
    refine Flow.Holds.bind (Flow.holds_forEachWhile (fun done s => NoneRejected done ∧ Quiet s) es
      (d := []) ⟨fun _ he => absurd he List.not_mem_nil, rfl, List.not_mem_nil, rfl⟩
      fun done e rest s hsplit _ hs => onPacket_quiet hsplit hdue hs.1 hs.2) fun s hs => ?_
    rcases hs with ⟨done, rest, hsplit, ⟨hnone, hquiet⟩, rfl | hcond⟩
    · rw [List.nil_append, List.append_nil] at hsplit
      exact absurd (hsplit ▸ hnone) hrejected
    · have hlt : s.haveWrite < x.tms.length := by
        rw [hquiet.1]
        exact List.length_pos_of_ne_nil htms
      exact absurd hlt (of_decide_eq_false hcond)
  rwa [hr, Flow.holds_ret] at hrun

end quiet

/-! ### When every failure is reported -/

section reported
variable {x : Context} {ok : FltStep → Bool} {r : ℤ × State}

theorem dumpFltCode_ne_none_iff : dumpFltCode ok x ≠ none ↔ x.needResize = true := by
  rw [dumpFltCode, Ne, Option.map_eq_none_iff, Context.needResize, Option.isSome_iff_ne_none]

/-- A run that is left before the writer and the graph reports everything. -/
theorem Reported.of_left (hcode : r.1 ≠ 0) (hpush : ¬ Pushed r) : Reported ok x r :=
  ⟨fun _ _ _ => ⟨hcode, hpush⟩, fun _ _ _ => hcode, fun hzero => absurd hzero hcode⟩

/-- A run without a graph, that is left or has nothing to write, reports everything. -/
theorem Reported.of_unfiltered (hresize : x.needResize = false) (hr : x.tms = [] ∨ r.1 ≠ 0)
    (hwrites : ∀ w ∈ writes r.2.log, w.idx < x.tms.length) : Reported ok x r := by
  refine ⟨?graph, ?write, ?success⟩
  case graph =>
    intro code hcode _
    have hgraph := dumpFltCode_ne_none_iff.1 (ne_of_eq_of_ne hcode (Option.some_ne_none code))
    rw [hresize] at hgraph
    exact absurd hgraph Bool.false_ne_true
  case write =>
    intro w hw _
    rcases hr with htms | hcode
    · have hidx := hwrites w hw
      rw [htms] at hidx
      exact absurd hidx (Nat.not_lt_zero _)
    · exact hcode
  case success =>
    intro hzero idx hidx
    rcases hr with htms | hcode
    · rw [htms] at hidx
      exact absurd hidx (Nat.not_lt_zero _)
    · exact absurd hzero hcode

theorem Reported.of_seek (hseek : x.events = none) (hr : run x = Flow.ret r) : Reported ok x r := by
  simp only [run, hseek, Flow.ret.injEq] at hr
  subst hr
  exact .of_left (by decide) fun hpush => by simp [Pushed, State.init] at hpush

/-- A run that is left before any time is reached. -/
theorem Reported.of_rejected (hrejects : ¬ x.Accepts) (htms : x.tms ≠ [])
    (hdue : ∀ idx < x.tms.length, x.firstDue x.framePts idx = none) (hr : run x = Flow.ret r) :
    Reported ok x r := by
  cases hes : x.events with
  | none => exact .of_seek hes hr
  | some es =>
    rw [x.framePts_of_events hes] at hdue
    rw [Context.accepts_iff hes] at hrejects
    rcases run_quiet hes hrejects htms hdue hr with ⟨hcode, _, hpush, _⟩
    refine .of_left (by omega) ?_
    intro hpushed
    rcases hpushed with hleft | hmem
    · omega
    · exact hpush hmem

/-- Where the run is left first, everything is reported, whatever FFmpeg answers. -/
theorem reported_of_leftFirst (hx : x.LeftFirst) (hr : run x = Flow.ret r) : Reported ok x r := by
  have houtcome := outcome_of_run x hr
  have hwrites : ∀ w ∈ writes r.2.log, w.idx < x.tms.length := by
    intro w hw
    rcases houtcome.exists_served with ⟨_, _, _, _, hserved, _⟩
    exact (hserved.mem w hw).1
  rcases hx with hseek | ⟨hresize, htms⟩ | ⟨hrejects, htms, hdue⟩
  · exact .of_seek hseek hr
  · exact .of_unfiltered hresize (Or.inl htms) hwrites
  · by_cases hresize : x.needResize = true
    · rw [if_pos hresize] at hdue
      exact .of_rejected hrejects htms hdue hr
    · rw [if_neg hresize] at hdue
      refine .of_unfiltered (by simpa using hresize) (Or.inr ?_) hwrites
      intro hcode
      rcases houtcome.completes hcode with ⟨es, hes, hcompletes⟩
      rcases hcompletes.ends with hall | ⟨hnone, _⟩
      · rcases hdue with ⟨idx, hidx, hdue⟩
        rw [x.framePts_of_events hes] at hdue
        exact hall idx hidx hdue
      · exact hrejects ((Context.accepts_iff hes).2 hnone)

/-- With a graph that cannot be configured. -/
theorem leftFirst_of_filtered (hf : x.ffmpeg.Filters) (hok : ∀ n, x.ffmpeg.refOk n = true)
    (hresize : x.needResize = true)
    (hr : run x = Flow.ret r) (h : Reported (fun _ => false) x r) : x.LeftFirst := by
  have houtcome := outcome_of_run x hr
  have hgraph : r.1 ≠ 0 ∧ ¬ Pushed r := by
    cases hcode : dumpFltCode (fun _ => false) x with
    | none => exact absurd hcode (dumpFltCode_ne_none_iff.2 hresize)
    | some code =>
      refine h.graph code hcode ?_
      rw [dumpFltCode, Option.map_eq_some_iff] at hcode
      rcases hcode with ⟨_, _, rfl⟩
      decide
  rcases (run_pushed hresize hr).resolve_left hgraph.2 with ⟨hwrites, hleft⟩
  have hrejects := hleft.resolve_left hgraph.1
  cases hes : x.events with
  | none => exact Or.inl hes
  | some es =>
    refine Or.inr (Or.inr ⟨hrejects, ?_, ?_⟩)
    · intro htms
      refine hgraph.1 ((houtcome.code_eq_zero_iff hf).2
        ⟨es, hes, Or.inl fun idx hidx => ?_, fun _ n _ => hok n⟩)
      rw [htms] at hidx
      exact absurd hidx (Nat.not_lt_zero _)
    · rw [if_pos hresize]
      intro idx hidx
      by_contra hdue
      rcases Option.ne_none_iff_exists'.1 hdue with ⟨n, hn⟩
      rcases houtcome.exists_write hf hidx hn (fun _ m _ _ => hok m) with ⟨w, hw, _⟩
      rw [hwrites] at hw
      exact absurd hw List.not_mem_nil

/-- With a writer that fails. -/
theorem leftFirst_of_unfiltered (hf : x.ffmpeg.Filters)
    (hwrite : ∀ log step, x.ffmpeg.writeOk log step = false) (hresize : x.needResize = false)
    (hr : run x = Flow.ret r) (h : Reported ok x r) : x.LeftFirst := by
  have houtcome := outcome_of_run x hr
  have hnone : ∀ es, x.events = some es → x.tms ≠ [] → ¬ x.Completes es := by
    intro es hes htms hcompletes
    have hcode := (houtcome.code_eq_zero_iff hf).2 ⟨es, hes, hcompletes⟩
    rcases h.success hcode 0 (List.length_pos_of_ne_nil htms) with ⟨w, hw, _, hzero⟩
    rcases houtcome.code_eq hw with ⟨log, hlog⟩
    have hfail : write (x.ffmpeg.writeOk log) w.picture = -10100 := by
      simp [write, WriteStep.all, WriteStep.code, hwrite log]
    rw [hlog, hfail] at hzero
    exact absurd hzero (by decide)
  by_cases htms : x.tms = []
  · exact Or.inr (Or.inl ⟨hresize, htms⟩)
  cases hes : x.events with
  | none => exact Or.inl hes
  | some es =>
    have hnot := hnone es hes htms
    have hunfiltered : x.needResize ≠ true := by simp [hresize]
    refine Or.inr (Or.inr ⟨?_, htms, ?_⟩)
    · intro haccepts
      exact hnot ⟨Or.inr ⟨(Context.accepts_iff hes).1 haccepts, fun h => absurd h hunfiltered⟩,
        fun h => absurd h hunfiltered⟩
    · rw [if_neg hunfiltered, x.framePts_of_events hes]
      by_contra hall
      push Not at hall
      exact hnot ⟨Or.inl hall, fun h => absurd h hunfiltered⟩

end reported

/-- Answers of FFmpeg where nothing can be written. -/
def unwritable : Ffmpeg := { healthy with writeOk := fun _ _ => false }

/-- **The failures of the helpers are all reported, whatever FFmpeg answers, exactly when the run
is left by another error first, or has nothing to do.** -/
theorem reported_iff (fails : Option SetUp) (x : Context) :
    (∀ ok ffmpeg r, runAll fails { x with ffmpeg := ffmpeg } = Flow.ret r →
      Reported ok { x with ffmpeg := ffmpeg } r) ↔
    fails ≠ none ∨ x.LeftFirst := by
  constructor
  · intro h
    cases fails with
    | some step => exact Or.inl (Option.some_ne_none step)
    | none =>
      refine Or.inr ?_
      by_cases hresize : x.needResize = true
      · rcases run_eq_ret { x with ffmpeg := healthy } with ⟨r, hr⟩
        exact leftFirst_of_filtered (x := { x with ffmpeg := healthy }) healthy_healthy.filters
          (fun _ => rfl) hresize hr (h _ healthy r hr)
      · have hfalse : x.needResize = false := by simpa using hresize
        rcases run_eq_ret { x with ffmpeg := unwritable } with ⟨r, hr⟩
        exact leftFirst_of_unfiltered (x := { x with ffmpeg := unwritable })
          ⟨fun _ => rfl, fun _ => rfl⟩ (fun _ _ => rfl) hfalse hr
          (h (fun _ => true) unwritable r hr)
  · intro hcond ok ffmpeg r hr
    cases fails with
    | some step =>
      simp only [runAll, Flow.ret.injEq] at hr
      subst hr
      refine .of_left step.code_ne_zero ?_
      cases step <;> simp [Pushed, SetUp.code, State.init]
    | none =>
      exact reported_of_leftFirst (x := { x with ffmpeg := ffmpeg })
        (hcond.resolve_left fun hne => hne rfl) hr

/-- The output file cannot be opened: nothing is written for the only requested time, and the
status is 0. -/
theorem not_reported_unwritable :
    ∃ r, runAll none { oneTime prompt with ffmpeg := unwritable } = Flow.ret r ∧
      ¬ Reported (fun _ => true) { oneTime prompt with ffmpeg := unwritable } r ∧ r.1 = 0 ∧
      ∃ w ∈ writes r.2.log, w.idx = 0 ∧ w.code = -10100 := by
  rcases run_eq_ret { oneTime prompt with ffmpeg := unwritable } with ⟨r, hr⟩
  have houtcome := outcome_of_run _ hr
  have hcode : r.1 = 0 := by
    refine (houtcome.code_eq_zero_iff ⟨fun _ => rfl, fun _ => rfl⟩).2
      ⟨prompt, rfl, Or.inl ?_, fun _ _ _ => rfl⟩
    decide +kernel
  rcases List.mem_map.1 (houtcome.all_written hcode 0 (by decide)) with ⟨w, hw, hwidx⟩
  have hfail : w.code = -10100 := by
    rcases houtcome.code_eq hw with ⟨log, hlog⟩
    rw [hlog]
    simp [write, WriteStep.all, WriteStep.code, unwritable]
  refine ⟨r, hr, ?_, hcode, w, hw, hwidx, hfail⟩
  intro h
  refine h.write w hw ?_ hcode
  rw [hfail]
  decide

end AudioCrash.Video
