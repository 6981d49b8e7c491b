import AudioCrash.Video.Matching

/-!
# The frames that are written

A write inside the matching loop is live when `encode_frame` still holds the picture of the
decoded frame that the write is made for. Without a filter graph it is, unless `av_frame_ref` has
left `ref_frame` empty, which nobody looks at. With a graph it is for the first index that a frame
serves; for the second one `resize_frame` has been emptied.

## Main definitions

* `Live` — every write in the loop is live.
* `Context.Shared` — a frame serves two indices.
* `Context.KeepsPictures`, `live_iff` — when every run is live.
-/

namespace AudioCrash.Video

/-- Every frame passed to `write` inside the matching loop holds the picture of the current
decoded frame. -/
def Live (x : Context) (r : ℤ × State) : Prop :=
  ∀ w ∈ writes r.2.log, ∀ n : ℕ, w.place = n → w.picture = some ⟨n, x.needResize⟩

/-- Two indices are first due on the frame `n`. -/
def Context.Shared (x : Context) (ps : List ℤ) (n : ℕ) : Prop :=
  ∃ idx' < x.tms.length, x.firstDue ps idx' = some n ∧ x.Taken ps n idx'

/-- What keeps the writes live, for the answers of `av_frame_ref`. Without a filter graph it
succeeds for every frame that serves an index. With one, no frame serves two, or it has failed
before: for a frame that serves an index, so that the run is left. -/
def Context.KeepsPictures (x : Context) (refOk : ℕ → Bool) (ps : List ℤ) : Prop :=
  if x.needResize = true then
    ∀ n, x.Shared ps n → ∃ m ≤ n, x.Taken ps m x.tms.length ∧ refOk m = false
  else ∀ n, x.Taken ps n x.tms.length → refOk n = true

section live
variable {x : Context} {ps : List ℤ} {s : State}

/-- The table of a run is that of the loop, or that of the loop and the fallback. -/
def Context.Table (x : Context) (ps : List ℤ) (e : ℕ → Option Entry) : Prop :=
  e = x.loopEntry ps ∨ e = x.finalEntry ps

theorem Context.Table.eq_some {e : ℕ → Option Entry} (he : x.Table ps e) {idx n : ℕ}
    (h : x.firstDue ps idx = some n) :
    e idx = some ((n : WithTop ℕ), x.loopPicture ps n idx) := by
  rcases he with rfl | rfl
  · exact x.loopEntry_of_some h
  · exact x.finalEntry_of_some h

/-- A write in the loop. -/
theorem Served.picture_eq {e : ℕ → Option Entry} (h : Served x e s) (he : x.Table ps e)
    {w : Written} (hw : w ∈ writes s.log) {n : ℕ} (hplace : w.place = n) :
    x.firstDue ps w.idx = some n ∧ w.picture = x.loopPicture ps n w.idx := by
  have hentry := (h.mem w hw).2.1
  rw [hplace] at hentry
  cases hdue : x.firstDue ps w.idx with
  | none =>
    exfalso
    rcases he with rfl | rfl
    · rw [x.loopEntry_of_none hdue] at hentry
      exact Option.some_ne_none _ hentry.symm
    · rw [x.finalEntry_of_none hdue] at hentry
      exact WithTop.top_ne_natCast n (congrArg Prod.fst (Option.some.inj hentry))
  | some m =>
    rw [he.eq_some hdue, Option.some_inj, Prod.mk.injEq] at hentry
    have hmn : m = n := by simpa using hentry.1
    rw [hmn] at hentry
    exact ⟨congrArg some hmn, hentry.2.symm⟩

/-- An index that is due is written in the loop. -/
theorem Served.exists_write {e : ℕ → Option Entry} (h : Served x e s) (he : x.Table ps e)
    {idx n : ℕ} (hidx : idx < x.tms.length) (hdue : x.firstDue ps idx = some n) :
    ∃ w ∈ writes s.log, w.idx = idx ∧ w.place = n := by
  have hentry := he.eq_some hdue
  rcases h.all idx hidx _ hentry with ⟨w, hw, hwidx⟩
  have hmem := (h.mem w hw).2.1
  rw [hwidx, hentry, Option.some_inj, Prod.mk.injEq] at hmem
  exact ⟨w, hw, hwidx, hmem.1.symm⟩

/-- The writes of a run are those of a table over a prefix of the frames. -/
theorem Outcome.exists_served {r : ℤ × State} (h : Outcome x r) :
    ∃ ps e, ps <+: x.framePts ∧ x.Table ps e ∧ Served x e r.2 ∧ x.Referred ps := by
  cases h with
  | left ps hps served href => exact ⟨ps, _, hps, Or.inl rfl, served, href⟩
  | reached ps hps served href => exact ⟨ps, _, hps, Or.inl rfl, served, href⟩
  | fell served href => exact ⟨x.framePts, _, List.prefix_refl _, Or.inr rfl, served, href⟩

/-- What a run writes that keeps its pictures. -/
theorem Context.loopPicture_eq_some {n idx : ℕ} (hps : ps <+: x.framePts)
    (hx : x.KeepsPictures x.ffmpeg.refOk x.framePts) (href : x.Referred ps)
    (hidx : idx < x.tms.length) (hdue : x.firstDue ps idx = some n) :
    x.loopPicture ps n idx = some ⟨n, x.needResize⟩ := by
  have hall := x.firstDue_of_isPrefix hps hdue
  rw [Context.KeepsPictures] at hx
  by_cases hresize : x.needResize = true
  · rw [if_pos hresize] at hx
    have hok := href hresize n ⟨idx, hidx, hdue⟩
    have hfirst : ¬ x.Taken ps n idx := by
      rintro ⟨idx', hidx', hdue'⟩
      rcases hx n ⟨idx, hidx, hall, idx', hidx', x.firstDue_of_isPrefix hps hdue'⟩
        with ⟨m, hm, htaken, hfails⟩
      rcases hps with ⟨rest, hrest⟩
      have hlt : m < ps.length := hm.trans_lt (x.firstDue_lt hdue)
      rw [← hrest, x.taken_append_iff ps rest hlt] at htaken
      rw [href hresize m htaken] at hfails
      exact Bool.noConfusion hfails
    rw [Context.loopPicture, if_neg fun hc => hfirst hc.2, x.pictureOf_of_ok hok]
  · rw [if_neg hresize] at hx
    rw [Context.loopPicture, if_neg fun hc => hresize hc.1,
      x.pictureOf_of_ok (hx n ⟨idx, hidx, hall⟩)]

/-- A run that keeps its pictures is live. -/
theorem Outcome.live {r : ℤ × State} (h : Outcome x r)
    (hx : x.KeepsPictures x.ffmpeg.refOk x.framePts) : Live x r := by
  rcases h.exists_served with ⟨ps, e, hps, he, hserved, href⟩
  intro w hw n hplace
  rcases hserved.picture_eq he hw hplace with ⟨hdue, hpicture⟩
  rw [hpicture]
  exact Context.loopPicture_eq_some hps hx href (hserved.mem w hw).1 hdue

/-- When no filter fails, an index that is due on a received frame is written in the loop, if the
frames before could be referred to. -/
theorem Outcome.exists_write {r : ℤ × State} (h : Outcome x r) (hf : x.ffmpeg.Filters) {idx n : ℕ}
    (hidx : idx < x.tms.length) (hdue : x.firstDue x.framePts idx = some n)
    (hok : x.needResize = true → ∀ m ≤ n, x.Taken x.framePts m x.tms.length →
      x.ffmpeg.refOk m = true) :
    ∃ w ∈ writes r.2.log, w.idx = idx ∧ w.place = n := by
  cases h with
  | left ps hps served _ _ _ hhalts =>
    cases hhalts hf with
    | atEnd hall _ =>
      rw [← hall] at hdue
      exact served.exists_write (Or.inl rfl) hidx hdue
    | unreferenced hresize htaken hfails =>
      have hlt : n < ps.length := by
        by_contra hle
        rw [hok hresize ps.length (not_lt.1 hle) htaken] at hfails
        exact Bool.noConfusion hfails
      rcases hps with ⟨rest, hrest⟩
      rw [← hrest, x.firstDue_append_eq_some_iff ps rest hlt] at hdue
      exact served.exists_write (Or.inl rfl) hidx hdue
  | reached ps hps served _ _ _ every =>
    cases hps' : x.firstDue ps idx with
    | none => exact absurd hps' (every idx hidx)
    | some m =>
      have hm := x.firstDue_of_isPrefix hps hps'
      rw [hdue, Option.some_inj] at hm
      exact served.exists_write (Or.inl rfl) hidx (hm ▸ hps')
  | fell served => exact served.exists_write (Or.inr rfl) hidx hdue

end live

/-- Answers of FFmpeg with no failure. -/
def healthy : Ffmpeg := ⟨fun _ => true, fun _ => true, fun _ => true, fun _ _ => true⟩

theorem healthy_healthy : healthy.Healthy :=
  ⟨fun _ => rfl, fun _ => rfl, fun _ => rfl, fun _ _ => rfl⟩

/-- A frame that serves two indices through the filters is written empty for the second. -/
theorem not_live_of_shared {x : Context} (hf : x.ffmpeg.Filters) (hresize : x.needResize = true)
    {n : ℕ} (hshared : x.Shared x.framePts n)
    (hok : ∀ m ≤ n, x.Taken x.framePts m x.tms.length → x.ffmpeg.refOk m = true)
    {r : ℤ × State} (hr : run x = Flow.ret r) : ¬ Live x r := by
  intro hlive
  rcases hshared with ⟨idx, hidx, hdue, htaken⟩
  have houtcome := outcome_of_run x hr
  rcases houtcome.exists_write hf hidx hdue (fun _ => hok) with ⟨w, hw, rfl, hplace⟩
  rcases houtcome.exists_served with ⟨ps, e, hps, he, hserved, -⟩
  rcases hserved.picture_eq he hw hplace with ⟨hwdue, hpicture⟩
  rcases hps with ⟨rest, hrest⟩
  rw [← hrest, x.taken_append_iff ps rest (x.firstDue_lt hwdue)] at htaken
  rw [Context.loopPicture, if_pos ⟨hresize, htaken⟩, hlive w hw n hplace] at hpicture
  exact Option.some_ne_none _ hpicture

/-- A frame that serves an index without filters, and could not be referred to, is written
empty. -/
theorem not_live_of_unreferenced {x : Context} (hf : x.ffmpeg.Filters)
    (hresize : x.needResize = false) {n : ℕ} (htaken : x.Taken x.framePts n x.tms.length)
    (hfails : x.ffmpeg.refOk n = false) {r : ℤ × State} (hr : run x = Flow.ret r) :
    ¬ Live x r := by
  intro hlive
  have hunfiltered : x.needResize ≠ true := by simp [hresize]
  rcases htaken with ⟨idx, hidx, hdue⟩
  have houtcome := outcome_of_run x hr
  rcases houtcome.exists_write hf hidx hdue (fun hc => absurd hc hunfiltered)
    with ⟨w, hw, rfl, hplace⟩
  rcases houtcome.exists_served with ⟨ps, e, -, he, hserved, -⟩
  have hpicture := (hserved.picture_eq he hw hplace).2
  rw [Context.loopPicture, if_neg fun hc => hunfiltered hc.1,
    x.pictureOf_of_not_ok hfails, hlive w hw n hplace] at hpicture
  exact Option.some_ne_none _ hpicture

/-- **For the answers of `av_frame_ref`, every run is live, whatever else FFmpeg answers, exactly
when the pictures are kept.** -/
theorem live_iff (x : Context) (refOk : ℕ → Bool) :
    (∀ ffmpeg r, ffmpeg.refOk = refOk → run { x with ffmpeg := ffmpeg } = Flow.ret r →
      Live { x with ffmpeg := ffmpeg } r) ↔
    x.KeepsPictures refOk x.framePts := by
  constructor
  · intro hlive
    rcases run_eq_ret { x with ffmpeg := { healthy with refOk := refOk } } with ⟨r, hr⟩
    have hthis := hlive { healthy with refOk := refOk } r rfl hr
    have hfilters : ({ healthy with refOk := refOk } : Ffmpeg).Filters :=
      ⟨fun _ => rfl, fun _ => rfl⟩
    rw [Context.KeepsPictures]
    split_ifs with hresize
    · intro n hshared
      by_contra hnone
      push Not at hnone
      refine not_live_of_shared (x := { x with ffmpeg := { healthy with refOk := refOk } })
        hfilters hresize hshared (fun m hm htaken => ?_) hr hthis
      simpa using hnone m hm htaken
    · intro n htaken
      by_contra hfails
      have hfalse : x.needResize = false := by simpa using hresize
      exact not_live_of_unreferenced
        (x := { x with ffmpeg := { healthy with refOk := refOk } }) hfilters hfalse htaken
        (by simpa using hfails) hr hthis
  · rintro hx ffmpeg r rfl hr
    exact (outcome_of_run _ hr).live hx

/-- Two times at the start of a video, to be scaled to a width of 300, and one frame. -/
def twoTimes : Context where
  tms := [0, 0]
  metadata := none
  width := 300
  streamDuration := 1
  duration := 1000
  due := exactDue 1 1000
  seek := fun _ => some [.accepted 0 [⟨0⟩]]
  ffmpeg := healthy

/-- The frame serves both times, and the second thumbnail is written from an empty frame. -/
theorem not_live_twoTimes : ∃ r, run twoTimes = Flow.ret r ∧ ¬ Live twoTimes r := by
  rcases run_eq_ret twoTimes with ⟨r, hr⟩
  have hshared : twoTimes.Shared twoTimes.framePts 0 :=
    ⟨1, by decide, by decide +kernel, 0, by decide, by decide +kernel⟩
  exact ⟨r, hr, not_live_of_shared healthy_healthy.filters rfl hshared (fun _ _ _ => rfl) hr⟩

end AudioCrash.Video
