import AudioCrash.Video.Served

/-!
# Which frame serves which index

The loops serve an index by the first received frame whose packet has reached the requested
time (`firstDue`). On the filtered path the filters are passed once for a frame, and
`resize_frame` is emptied after the first write, so that the indices that a frame serves
after the first one are written from an empty frame (`loopPicture`). A frame that `av_frame_ref`
has failed for is written empty too, and stops the run when it has to go through the filters.

The invariant `Inv` says that exactly these writes have been made for the frames received so
far; `Mid` is the same in the middle of the loop over the indices. `run_outcome` is what
holds of the result of every run.

## Main definitions

* `receivedFrames`, `framePts` — the frames received until a packet is rejected.
* `Context.firstDue`, `Context.Taken`, `Context.loopEntry`, `Context.finalEntry` — the table.
* `Context.Referred`, `Context.Halted` — what is needed for a run to go on.
* `Inv`, `Mid`, `Outcome`, `run_outcome`.
-/

namespace AudioCrash.Video

/-! ## The frames received -/

/-- The frames received, each with the time of its packet: a rejected packet ends the run. -/
def receivedFrames : List Event → List (ℤ × Frame)
  | [] => []
  | .other :: es => receivedFrames es
  | .rejected _ :: _ => []
  | .accepted pts frames :: es => frames.map (fun f => (pts, f)) ++ receivedFrames es

/-- The packet times of the frames received. -/
def framePts (es : List Event) : List ℤ := (receivedFrames es).map Prod.fst

/-- No packet is rejected. -/
def NoneRejected (es : List Event) : Prop := ∀ e ∈ es, ∀ pts, e ≠ .rejected pts

@[simp] theorem framePts_nil : framePts [] = [] := rfl
@[simp] theorem framePts_other (es : List Event) : framePts (.other :: es) = framePts es := rfl
@[simp] theorem framePts_rejected (pts : ℤ) (es : List Event) :
    framePts (.rejected pts :: es) = [] := rfl
@[simp] theorem framePts_accepted (pts : ℤ) (frames : List Frame) (es : List Event) :
    framePts (.accepted pts frames :: es) = List.replicate frames.length pts ++ framePts es := by
  simp [framePts, receivedFrames, Function.comp_def]

theorem framePts_append {es : List Event} (h : NoneRejected es) (es' : List Event) :
    framePts (es ++ es') = framePts es ++ framePts es' := by
  induction es with
  | nil => rfl
  | cons e es ih =>
    have hes : NoneRejected es := fun e' he' => h e' (List.mem_cons_of_mem e he')
    cases e with
    | other => simpa using ih hes
    | rejected pts => exact absurd rfl (h _ List.mem_cons_self pts)
    | accepted pts frames => simp [ih hes]

/-! ## The table -/

namespace Context
variable (x : Context)

/-- The first received frame on which an index is due, for the packet times `ps`. -/
def firstDue (ps : List ℤ) (idx : ℕ) : Option ℕ := ps.findIdx? fun p => x.due p (x.tm idx)

/-- The frame `n` is the first on which one of the indices below `k` is due. -/
def Taken (ps : List ℤ) (n k : ℕ) : Prop := ∃ idx < k, x.firstDue ps idx = some n

instance (ps : List ℤ) (n k : ℕ) : Decidable (x.Taken ps n k) :=
  inferInstanceAs (Decidable (∃ idx < k, x.firstDue ps idx = some n))

/-- What `ref_frame` holds after the frame `n` is received. -/
def reference (n : ℕ) : Slot := if x.ffmpeg.refOk n then some ⟨n, false⟩ else none

/-- The picture of the frame `n` as it is to be written. -/
def pictureOf (n : ℕ) : Slot :=
  (x.reference n).map fun picture => { picture with filtered := x.needResize }

/-- What `encode_frame` holds when an index is written for the frame `n`. -/
def loopPicture (ps : List ℤ) (n idx : ℕ) : Slot :=
  if x.needResize = true ∧ x.Taken ps n idx then none else x.pictureOf n

/-- What the loop writes an index with. -/
def loopEntry (ps : List ℤ) (idx : ℕ) : Option Entry :=
  (x.firstDue ps idx).map fun n : ℕ => ((n : WithTop ℕ), x.loopPicture ps n idx)

/-- What `ref_frame` holds after the frames received. -/
def refAfter (ps : List ℤ) : Slot :=
  match ps.length with
  | 0 => none
  | n + 1 =>
    if x.needResize = true ∧ x.Taken ps n x.tms.length then none else x.reference n

/-- What an index that is due on no frame is written with after the loop. -/
def fallbackPicture (ps : List ℤ) : Slot :=
  (x.refAfter ps).map fun picture => { picture with filtered := x.needResize }

/-- With a filter graph, the frames that serve an index have been referred to. -/
def Referred (ps : List ℤ) : Prop :=
  x.needResize = true → ∀ n, x.Taken ps n x.tms.length → x.ffmpeg.refOk n = true

/-- What an index is written with in a run that returns 0. -/
def finalEntry (ps : List ℤ) (idx : ℕ) : Option Entry :=
  some ((x.loopEntry ps idx).getD (⊤, x.fallbackPicture ps))

section table
variable (ps : List ℤ) (p : ℤ)

theorem firstDue_concat (idx : ℕ) :
    x.firstDue (ps ++ [p]) idx =
      (x.firstDue ps idx).or (if x.due p (x.tm idx) then some ps.length else none) := by
  simp only [firstDue, List.findIdx?_append, List.findIdx?_singleton]
  split_ifs <;> simp

theorem firstDue_lt {ps : List ℤ} {idx n : ℕ} (h : x.firstDue ps idx = some n) :
    n < ps.length := by
  rw [firstDue, List.findIdx?_eq_some_iff_getElem] at h
  exact h.1

theorem firstDue_concat_of_some {ps : List ℤ} {idx n : ℕ} (h : x.firstDue ps idx = some n) :
    x.firstDue (ps ++ [p]) idx = some n := by
  rw [firstDue_concat, h, Option.some_or]

/-- Frames received before are taken by the same indices after more frames. -/
theorem firstDue_append_eq_some_iff (qs : List ℤ) {n : ℕ} (hn : n < ps.length) (idx : ℕ) :
    x.firstDue (ps ++ qs) idx = some n ↔ x.firstDue ps idx = some n := by
  rw [firstDue, List.findIdx?_append, ← firstDue, ← firstDue]
  cases h : x.firstDue ps idx with
  | some m => simp
  | none =>
    have hne : ∀ m : ℕ, ¬ m + ps.length = n := by omega
    simp [hne]

theorem firstDue_of_isPrefix {ps qs : List ℤ} (hpre : ps <+: qs) {idx n : ℕ}
    (h : x.firstDue ps idx = some n) : x.firstDue qs idx = some n := by
  rcases hpre with ⟨rest, rfl⟩
  exact (x.firstDue_append_eq_some_iff ps rest (x.firstDue_lt h) idx).2 h

theorem taken_append_iff (qs : List ℤ) {n : ℕ} (hn : n < ps.length) (k : ℕ) :
    x.Taken (ps ++ qs) n k ↔ x.Taken ps n k := by
  simp only [Taken, firstDue_append_eq_some_iff x ps qs hn]

theorem loopPicture_append (qs : List ℤ) {n : ℕ} (hn : n < ps.length) (idx : ℕ) :
    x.loopPicture (ps ++ qs) n idx = x.loopPicture ps n idx := by
  simp only [loopPicture, taken_append_iff x ps qs hn]

variable {ps} in
theorem loopEntry_of_some {idx n : ℕ} (h : x.firstDue ps idx = some n) :
    x.loopEntry ps idx = some ((n : WithTop ℕ), x.loopPicture ps n idx) := by
  rw [loopEntry, h, Option.map_some]

variable {ps} in
theorem loopEntry_of_none {idx : ℕ} (h : x.firstDue ps idx = none) :
    x.loopEntry ps idx = none := by
  rw [loopEntry, h, Option.map_none]

variable {ps} in
theorem finalEntry_of_some {idx n : ℕ} (h : x.firstDue ps idx = some n) :
    x.finalEntry ps idx = some ((n : WithTop ℕ), x.loopPicture ps n idx) := by
  rw [finalEntry, loopEntry_of_some x h, Option.getD_some]

variable {ps} in
theorem finalEntry_of_none {idx : ℕ} (h : x.firstDue ps idx = none) :
    x.finalEntry ps idx = some (⊤, x.fallbackPicture ps) := by
  rw [finalEntry, loopEntry_of_none x h, Option.getD_none]

/-- What has been written stays written. -/
theorem loopEntry_concat_of_some {idx n : ℕ} (h : x.firstDue ps idx = some n) :
    x.loopEntry (ps ++ [p]) idx = x.loopEntry ps idx := by
  rw [loopEntry_of_some x (firstDue_concat_of_some x p h), loopEntry_of_some x h,
    loopPicture_append x ps [p] (x.firstDue_lt h)]

/-- An index that is not due on the new frame keeps its entry. -/
theorem loopEntry_concat_of_ne {idx : ℕ} (h : x.firstDue (ps ++ [p]) idx ≠ some ps.length) :
    x.loopEntry (ps ++ [p]) idx = x.loopEntry ps idx := by
  cases hps : x.firstDue ps idx with
  | some n => exact x.loopEntry_concat_of_some ps p hps
  | none =>
    have hnone : x.firstDue (ps ++ [p]) idx = none := by
      rw [firstDue_concat, hps, Option.none_or] at h ⊢
      split_ifs at h ⊢ with hdue
      · exact absurd rfl h
      · rfl
    rw [loopEntry_of_none x hnone, loopEntry_of_none x hps]

theorem taken_succ (n k : ℕ) :
    x.Taken ps n (k + 1) ↔ x.Taken ps n k ∨ x.firstDue ps k = some n := by
  constructor
  · intro h
    rcases h with ⟨idx, hidx, hdue⟩
    by_cases hk : idx = k
    · exact Or.inr (hk ▸ hdue)
    · exact Or.inl ⟨idx, by omega, hdue⟩
  · intro h
    rcases h with ⟨idx, hidx, hdue⟩ | hdue
    · exact ⟨idx, by omega, hdue⟩
    · exact ⟨k, Nat.lt_succ_self k, hdue⟩

theorem not_taken_zero (n : ℕ) : ¬ x.Taken ps n 0 := by
  intro h
  rcases h with ⟨idx, hidx, _⟩
  exact absurd hidx (Nat.not_lt_zero idx)

theorem reference_eq_none_iff (n : ℕ) : x.reference n = none ↔ x.ffmpeg.refOk n = false := by
  rw [reference]
  cases x.ffmpeg.refOk n <;> simp

theorem pictureOf_of_ok {n : ℕ} (h : x.ffmpeg.refOk n = true) :
    x.pictureOf n = some ⟨n, x.needResize⟩ := by
  rw [pictureOf, reference, if_pos h, Option.map_some]

theorem pictureOf_of_not_ok {n : ℕ} (h : x.ffmpeg.refOk n = false) : x.pictureOf n = none := by
  rw [pictureOf, (x.reference_eq_none_iff n).2 h, Option.map_none]

/-- When every index is due, the frames to come serve none. -/
theorem Referred.of_isPrefix {ps qs : List ℤ} (h : x.Referred ps) (hpre : ps <+: qs)
    (hall : ∀ idx < x.tms.length, x.firstDue ps idx ≠ none) : x.Referred qs := by
  rintro hresize n ⟨idx, hidx, hdue⟩
  rcases Option.ne_none_iff_exists'.1 (hall idx hidx) with ⟨m, hm⟩
  rw [x.firstDue_of_isPrefix hpre hm, Option.some_inj] at hdue
  exact h hresize n ⟨idx, hidx, hdue ▸ hm⟩

theorem referred_nil : x.Referred [] := by
  rintro - n ⟨idx, -, hdue⟩
  exact absurd (x.firstDue_lt hdue) (Nat.not_lt_zero n)

variable {x ps p} in
theorem Referred.concat (h : x.Referred ps)
    (hnew : x.needResize = true → x.Taken (ps ++ [p]) ps.length x.tms.length →
      x.ffmpeg.refOk ps.length = true) : x.Referred (ps ++ [p]) := by
  intro hresize n htaken
  rcases htaken with ⟨idx, hidx, hdue⟩
  have hlt := x.firstDue_lt hdue
  rw [List.length_append, List.length_singleton] at hlt
  by_cases hn : n < ps.length
  · exact h hresize n ⟨idx, hidx, (x.firstDue_append_eq_some_iff ps [p] hn idx).1 hdue⟩
  · obtain rfl : n = ps.length := by omega
    exact hnew hresize ⟨idx, hidx, hdue⟩

end table
end Context

/-! ## The steps -/

/-- No FFmpeg call fails on a frame that holds a picture. -/
structure Ffmpeg.Healthy (ffmpeg : Ffmpeg) : Prop where
  ref : ∀ n, ffmpeg.refOk n = true
  addFrame : ∀ log, ffmpeg.addFrameOk log = true
  getFrame : ∀ log, ffmpeg.getFrameOk log = true
  write : ∀ log step, ffmpeg.writeOk log step = true

/-- No filter fails on a frame that holds a picture. -/
structure Ffmpeg.Filters (ffmpeg : Ffmpeg) : Prop where
  addFrame : ∀ log, ffmpeg.addFrameOk log = true
  getFrame : ∀ log, ffmpeg.getFrameOk log = true

theorem Ffmpeg.Healthy.filters {ffmpeg : Ffmpeg} (h : ffmpeg.Healthy) : ffmpeg.Filters :=
  ⟨h.addFrame, h.getFrame⟩

section steps
variable {x : Context}

/-- The filters have been passed between `s` and `s'` by the picture of `ref_frame`. -/
structure Filtered (x : Context) (s s' : State) : Prop where
  same : SameWrites s s'
  ref : s'.ref = if x.needResize = true then none else s.ref
  resize : x.needResize = false → s'.resize = s.resize
  encode : s'.encode = if x.needResize = true then .resize else .ref
  picture : s'.encodeFrame =
    s.ref.map fun picture => { picture with filtered := x.needResize || picture.filtered }
  nonempty : x.needResize = true → s.ref ≠ none

/-- The run is left in the filters. -/
structure FilterFailed (x : Context) (s : State) (r : ℤ × State) : Prop where
  same : SameWrites s r.2
  code : r.1 ≠ 0
  resize : x.needResize = true
  filters : x.ffmpeg.Filters → s.ref = none

theorem filterFrame_filtered (s : State) :
    Flow.Holds (Filtered x s) (FilterFailed x s) (filterFrame x s) := by
  simp only [filterFrame]
  by_cases hresize : x.needResize = true
  · rw [if_pos hresize]
    cases href : s.ref with
    | none => exact ⟨⟨rfl, rfl, rfl, rfl⟩, by simp, hresize, fun _ => href⟩
    | some picture =>
      dsimp only
      split_ifs with hadd hget
      · refine ⟨⟨rfl, rfl, rfl, rfl⟩, by simp, hresize, fun hh => ?_⟩
        simp [hh.addFrame] at hadd
      · refine ⟨⟨writes_addFrame _, rfl, rfl, rfl⟩, by simp, hresize, fun hh => ?_⟩
        simp [hh.getFrame] at hget
      · refine ⟨⟨(writes_getFrame _).trans (writes_addFrame _), rfl, rfl, rfl⟩, ?_, ?_, ?_, ?_,
          fun _ => by simp [href]⟩
        · simp [hresize]
        · simp [hresize]
        · simp [hresize]
        · simp [hresize, href, State.encodeFrame]
  · rw [if_neg hresize]
    have hfalse : x.needResize = false := by simpa using hresize
    refine ⟨⟨rfl, rfl, rfl, rfl⟩, ?_, fun _ => rfl, ?_, ?_, fun hc => absurd hc hresize⟩
    · simp [hfalse]
    · simp [hfalse]
    · cases s.ref <;> simp [hfalse, State.encodeFrame]

/-- The table in the middle of the loop over the indices: those below `k` have seen the new
frame. -/
def entryAt (x : Context) (ps : List ℤ) (p : ℤ) (k idx : ℕ) : Option Entry :=
  if idx < k then x.loopEntry (ps ++ [p]) idx else x.loopEntry ps idx

/-- The invariant of the loop over the indices, for the frame received after `ps`. -/
structure Mid (x : Context) (ps : List ℤ) (p : ℤ) (k : ℕ) (q : Bool × State) : Prop where
  served : Served x (entryAt x ps p k) q.2
  process : q.1 = true ↔ x.Taken (ps ++ [p]) ps.length k
  referred : x.needResize = true → q.1 = true → x.ffmpeg.refOk ps.length = true
  received : q.2.received = ps.length + 1
  resize : q.2.resize = none
  ref : q.2.ref = if x.needResize = true ∧ q.1 = true then none else x.reference ps.length
  encode : q.1 = true → q.2.encode = if x.needResize = true then .resize else .ref

/-- A run that is left because of the filters, for the frame received after `ps`: it would
serve an index. -/
structure Stopped (x : Context) (ps : List ℤ) (p : ℤ) (r : ℤ × State) : Prop where
  served : Served x (x.loopEntry ps) r.2
  code : r.1 ≠ 0
  resize : x.needResize = true
  taken : x.Taken (ps ++ [p]) ps.length x.tms.length
  filters : x.ffmpeg.Filters → x.ffmpeg.refOk ps.length = false

variable {ps : List ℤ} {p : ℤ} {k : ℕ} {q : Bool × State} {s : State}

theorem entryAt_succ_of_ne (h : x.firstDue (ps ++ [p]) k ≠ some ps.length) :
    entryAt x ps p (k + 1) = entryAt x ps p k := by
  ext1 idx
  by_cases hidx : idx = k
  · rw [hidx, entryAt, entryAt, if_pos (Nat.lt_succ_self k), if_neg (lt_irrefl k)]
    exact x.loopEntry_concat_of_ne ps p h
  · have hlt : idx < k + 1 ↔ idx < k := by omega
    simp only [entryAt, hlt]

theorem entryAt_succ_of_eq (h : x.firstDue (ps ++ [p]) k = some ps.length) :
    entryAt x ps p (k + 1) = Function.update (entryAt x ps p k) k
      (some ((ps.length : WithTop ℕ), x.loopPicture (ps ++ [p]) ps.length k)) := by
  ext1 idx
  by_cases hidx : idx = k
  · rw [hidx, Function.update_self, entryAt, if_pos (Nat.lt_succ_self k), x.loopEntry_of_some h]
  · have hlt : idx < k + 1 ↔ idx < k := by omega
    rw [Function.update_of_ne hidx]
    simp only [entryAt, hlt]

/-- Before the new frame serves an index, the table is the old one. -/
theorem entryAt_of_not_taken (h : ¬ x.Taken (ps ++ [p]) ps.length k) (idx : ℕ) :
    entryAt x ps p k idx = x.loopEntry ps idx := by
  by_cases hidx : idx < k
  · rw [entryAt, if_pos hidx]
    refine x.loopEntry_concat_of_ne ps p ?_
    intro hdue
    exact h ⟨idx, hidx, hdue⟩
  · rw [entryAt, if_neg hidx]

/-- The condition of the loop body: the index is first due on the new frame. -/
theorem Mid.cond_iff (h : Mid x ps p k q) (hk : k < x.tms.length) :
    (q.2.needWrite k && x.due p (x.tm k)) = true ↔
      x.firstDue (ps ++ [p]) k = some ps.length := by
  have hneed := h.served.needWrite k hk
  rw [entryAt, if_neg (lt_irrefl k), Context.loopEntry, Option.isNone_map] at hneed
  rw [hneed, x.firstDue_concat]
  cases hps : x.firstDue ps k with
  | some n =>
    have hne : n ≠ ps.length := (x.firstDue_lt hps).ne
    simp [hne]
  | none => simp

/-- What `encode_frame` holds once the filters have been passed for this frame. -/
theorem Mid.encodeFrame (h : Mid x ps p k q) (hq : q.1 = true) :
    q.2.encodeFrame = if x.needResize = true then none else x.reference ps.length := by
  have hencode := h.encode hq
  have href := h.ref
  cases hresize : x.needResize with
  | true => simp [State.encodeFrame, hencode, hresize, h.resize]
  | false => simp [State.encodeFrame, hencode, hresize, href]

/-- An index that is first due on the new frame is written, once the filters are passed. -/
theorem Mid.write (h : Mid x ps p k q) (hk : k < x.tms.length)
    (hdue : x.firstDue (ps ++ [p]) k = some ps.length) {s : State} (hs : SameWrites q.2 s)
    (hpicture : s.encodeFrame = x.loopPicture (ps ++ [p]) ps.length k)
    (href : s.ref = if x.needResize = true then none else x.reference ps.length)
    (hok : x.needResize = true → x.ffmpeg.refOk ps.length = true)
    (hencode : s.encode = if x.needResize = true then .resize else .ref) :
    Mid x ps p (k + 1)
      (true, { writeIndex x ((s.received - 1 : ℕ) : WithTop ℕ) k s with resize := none }) := by
  have hreceived : s.received = ps.length + 1 := hs.received.trans h.received
  have hplace : s.received - 1 = ps.length := by omega
  have hnone : entryAt x ps p k k = none := by
    have hneed := h.served.needWrite k hk
    have hcond := (h.cond_iff hk).2 hdue
    rw [Bool.and_eq_true, hneed] at hcond
    exact Option.isNone_iff_eq_none.1 hcond.1
  refine ⟨?_, ?_, fun hresize _ => hok hresize, hreceived, rfl, ?_, fun _ => hencode⟩
  · rw [entryAt_succ_of_eq hdue, ← hpicture, hplace]
    exact ((h.served.same hs).write hk hnone _).same ⟨rfl, rfl, rfl, rfl⟩
  · rw [x.taken_succ]
    exact ⟨fun _ => Or.inr hdue, fun _ => rfl⟩
  · simpa [writeIndex] using href

/-- **One index.** -/
theorem tryIndex_mid (h : Mid x ps p k q) (hk : k < x.tms.length) :
    Flow.Holds (Mid x ps p (k + 1)) (Stopped x ps p) (tryIndex x p k q) := by
  rcases q with ⟨process, s⟩
  simp only [tryIndex]
  by_cases hcond : (s.needWrite k && x.due p (x.tm k)) = true
  · rw [if_pos hcond]
    have hdue := (h.cond_iff hk).1 hcond
    cases process with
    | false =>
      have htaken : ¬ x.Taken (ps ++ [p]) ps.length k := fun ht => by simpa using h.process.2 ht
      have href : s.ref = x.reference ps.length := by simpa using h.ref
      refine Flow.Holds.bind ((filterFrame_filtered s).imp_ret ?_) fun s' hs => ?_
      · intro r hr
        refine ⟨(h.served.same hr.same).congr fun idx _ => (entryAt_of_not_taken htaken idx).symm,
          hr.code, hr.resize, ⟨k, hk, hdue⟩, ?_⟩
        intro hh
        rw [← x.reference_eq_none_iff, ← href]
        exact hr.filters hh
      · refine h.write hk hdue hs.same ?_ ?_ ?_ hs.encode
        · rw [hs.picture, href, Context.loopPicture, if_neg fun hc => htaken hc.2]
          simp [Context.pictureOf, Context.reference]
        · rw [hs.ref, href]
        · intro hresize
          have hne := hs.nonempty hresize
          rw [href, Ne, x.reference_eq_none_iff] at hne
          simpa using hne
    | true =>
      refine h.write hk hdue ⟨rfl, rfl, rfl, rfl⟩ ?_ (by simpa using h.ref)
        (fun hresize => h.referred hresize rfl) (h.encode rfl)
      have htaken := h.process.1 rfl
      rw [h.encodeFrame rfl, Context.loopPicture]
      cases hresize : x.needResize with
      | true => simp [htaken]
      | false => simp [Context.pictureOf, Context.reference, hresize, apply_ite]
  · rw [if_neg hcond]
    have hne : x.firstDue (ps ++ [p]) k ≠ some ps.length := fun hd => hcond ((h.cond_iff hk).2 hd)
    refine ⟨?_, ?_, h.referred, h.received, h.resize, h.ref, h.encode⟩
    · rw [entryAt_succ_of_ne hne]
      exact h.served
    · rw [x.taken_succ, h.process]
      simp [hne]

/-- The invariant between two frames. -/
structure Inv (x : Context) (ps : List ℤ) (s : State) : Prop where
  served : Served x (x.loopEntry ps) s
  referred : x.Referred ps
  received : s.received = ps.length
  resize : s.resize = none
  ref : s.ref = x.refAfter ps

theorem Inv.init : Inv x [] State.init :=
  ⟨Served.init, x.referred_nil, rfl, rfl, rfl⟩

theorem Inv.same {s' : State} (h : Inv x ps s) (hs : SameWrites s s')
    (hresize : s'.resize = s.resize)
    (href : s'.ref = s.ref) : Inv x ps s' :=
  ⟨h.served.same hs, h.referred, hs.received.trans h.received, hresize.trans h.resize,
    href.trans h.ref⟩

/-- **One frame.** -/
theorem onFrame_inv (h : Inv x ps s) (p : ℤ) (f : Frame) :
    Flow.Holds (Inv x (ps ++ [p])) (Stopped x ps p) (onFrame x p f s) := by
  have hstart : Mid x ps p 0 (false, { s with
      decode := some ⟨s.received, false⟩
      received := s.received + 1
      ref := x.reference s.received }) := by
    refine ⟨?_, ?_, by simp, congrArg (· + 1) h.received, h.resize, ?_, ?_⟩
    · refine (h.served.congr ?_).of_eq rfl rfl rfl
      intro idx _
      rw [entryAt, if_neg (Nat.not_lt_zero idx)]
    · simp [x.not_taken_zero]
    · simp [h.received]
    · simp
  refine Flow.Holds.bind (Flow.holds_forEach_range (Mid x ps p) x.tms.length hstart
    fun k hk q hq => tryIndex_mid hq hk) fun q hq => ?_
  refine ⟨?_, ?_, ?_, hq.resize, ?_⟩
  · refine hq.served.congr ?_
    intro idx hidx
    rw [entryAt, if_pos hidx]
  · exact h.referred.concat fun hresize htaken => hq.referred hresize (hq.process.2 htaken)
  · rw [hq.received, List.length_append, List.length_singleton]
  · rw [hq.ref, Context.refAfter, List.length_append, List.length_singleton]
    simp only [hq.process]

end steps

/-! ## The result -/

namespace Context
variable (x : Context)

/-- The packet times of the frames that a run can receive. -/
def framePts : List ℤ := (x.events.map Video.framePts).getD []

theorem framePts_of_events {es : List Event} (hes : x.events = some es) :
    x.framePts = Video.framePts es := by rw [framePts, hes, Option.map_some, Option.getD_some]

/-- The packets that a run reads after frames of the times `ps`: until every index is due. -/
def read (ps : List ℤ) : List Event → List Event
  | [] => []
  | e :: es =>
    if ∀ idx < x.tms.length, x.firstDue ps idx ≠ none then []
    else e :: read (ps ++ Video.framePts [e]) es

/-- The frames that a run can receive, each with the time of its packet. -/
def received : List (ℤ × Frame) := (x.events.map receivedFrames).getD []

/-- The frames that a run decodes, each with the time of its packet, when no call fails. -/
def decoded : List (ℤ × Frame) := (x.events.map fun es => receivedFrames (x.read [] es)).getD []

/-- The packet times of the frames that a run decodes. -/
def decodedPts : List ℤ := x.decoded.map Prod.fst

/-- The times of their own of the frames that a run decodes. -/
def decodedTimes : List ℤ := x.decoded.map fun received => received.2.pts

theorem decodedPts_of_events {es : List Event} (hes : x.events = some es) :
    x.decodedPts = Video.framePts (x.read [] es) := by
  rw [decodedPts, decoded, hes, Option.map_some, Option.getD_some, Video.framePts]

/-- What is read while an index is not due. -/
theorem read_cons_of_pending {ps : List ℤ} (h : ∃ idx < x.tms.length, x.firstDue ps idx = none)
    (e : Event) (es : List Event) :
    x.read ps (e :: es) = e :: x.read (ps ++ Video.framePts [e]) es := by
  rw [read, if_neg]
  rcases h with ⟨idx, hidx, hnone⟩
  exact fun hall => hall idx hidx hnone

theorem read_of_due {ps : List ℤ} (h : ∀ idx < x.tms.length, x.firstDue ps idx ≠ none)
    (es : List Event) : x.read ps es = [] := by
  cases es with
  | nil => rfl
  | cons e es => rw [read, if_pos h]

/-- The seek succeeds, and no packet is rejected. -/
def Accepts : Prop := ∃ es, x.events = some es ∧ NoneRejected es

end Context

/-- Why a run is left after the frames `ps` although no filter fails on a picture. -/
inductive Context.Halts (x : Context) (ps : List ℤ) : Prop where
  /-- The seek fails, a packet is rejected, or no picture is left for the filters. -/
  | atEnd (all : ps = x.framePts)
      (cause : ¬ x.Accepts ∨ x.needResize = true ∧ x.refAfter ps = none)
  /-- The next frame is to go through the filters, and could not be referred to. -/
  | unreferenced (resize : x.needResize = true) (taken : x.Taken x.framePts ps.length x.tms.length)
      (ref : x.ffmpeg.refOk ps.length = false)

/-- What holds of the result of a run: it has been left before its end, or the loops have
served every index, or the rest has been served after the loops. -/
inductive Outcome (x : Context) (r : ℤ × State) : Prop where
  | left (ps : List ℤ) (isPrefix : ps <+: x.framePts) (served : Served x (x.loopEntry ps) r.2)
      (referred : x.Referred ps) (code : r.1 ≠ 0)
      (pending : x.events = none ∨ ∃ idx < x.tms.length, x.firstDue ps idx = none)
      (halts : x.ffmpeg.Filters → x.Halts ps)
  | reached (ps : List ℤ) (isPrefix : ps <+: x.framePts) (served : Served x (x.loopEntry ps) r.2)
      (referred : x.Referred ps) (code : r.1 = 0) (seeks : x.events ≠ none)
      (every : ∀ idx < x.tms.length, x.firstDue ps idx ≠ none)
      (reads : ps = x.decodedPts) (received : r.2.received = ps.length)
  | fell (served : Served x (x.finalEntry x.framePts) r.2) (referred : x.Referred x.framePts)
      (code : r.1 = 0) (accepts : x.Accepts)
      (picture : x.needResize = true → x.refAfter x.framePts ≠ none)
      (reads : x.framePts = x.decodedPts) (received : r.2.received = x.framePts.length)

section result
variable {x : Context} {es done rest : List Event} {ps : List ℤ} {p : ℤ} {s : State}

/-- An index that the next frame serves is not due before. -/
theorem Context.Taken.exists_pending {k : ℕ} (h : x.Taken (ps ++ [p]) ps.length k) :
    ∃ idx < k, x.firstDue ps idx = none := by
  rcases h with ⟨idx, hidx, hdue⟩
  refine ⟨idx, hidx, ?_⟩
  cases hps : x.firstDue ps idx with
  | none => rfl
  | some n =>
    rw [x.firstDue_concat_of_some p hps, Option.some_inj] at hdue
    exact absurd hdue (x.firstDue_lt hps).ne

/-- The run is left at one of the frames. -/
def Stops (x : Context) (r : ℤ × State) : Prop :=
  ∃ ps p, ps ++ [p] <+: x.framePts ∧ x.Referred ps ∧ Stopped x ps p r

theorem Stopped.taken_of_isPrefix {r : ℤ × State} (h : Stopped x ps p r)
    (hps : ps ++ [p] <+: x.framePts) : x.Taken x.framePts ps.length x.tms.length := by
  rcases h.taken with ⟨idx, hidx, hdue⟩
  exact ⟨idx, hidx, x.firstDue_of_isPrefix hps hdue⟩

theorem Stops.outcome {r : ℤ × State} (h : Stops x r) : Outcome x r := by
  rcases h with ⟨ps, p, hps, href, h⟩
  exact .left ps ((List.prefix_append ps [p]).trans hps) h.served href h.code
    (Or.inr h.taken.exists_pending)
    fun hf => .unreferenced h.resize (h.taken_of_isPrefix hps) (h.filters hf)

/-- The loops go on while an index is not due. -/
theorem Inv.pending (h : Inv x ps s) (hlt : s.haveWrite < x.tms.length) :
    ∃ idx < x.tms.length, x.firstDue ps idx = none := by
  rcases h.served.haveWrite_lt_iff.1 hlt with ⟨idx, hidx, hnone⟩
  exact ⟨idx, hidx, Option.map_eq_none_iff.1 hnone⟩

/-- What holds between two packets. -/
def Between (x : Context) (done : List Event) (s : State) : Prop :=
  NoneRejected done ∧ Inv x (framePts done) s

theorem NoneRejected.concat (h : NoneRejected done) {e : Event} (he : ∀ pts, e ≠ .rejected pts) :
    NoneRejected (done ++ [e]) := by
  intro e' he' pts
  rcases List.mem_append.1 he' with he' | he'
  · exact h e' he' pts
  · rw [List.mem_singleton.1 he']
    exact he pts

/-- The frames of one packet. -/
theorem forEach_onFrame_inv (h : Inv x ps s) (pts : ℤ) (frames : List Frame) {qs : List ℤ}
    (hqs : x.framePts = ps ++ (List.replicate frames.length pts ++ qs)) :
    Flow.Holds (Inv x (ps ++ List.replicate frames.length pts)) (Stops x)
      (Flow.forEach (onFrame x pts) frames s) := by
  refine Flow.holds_forEach (fun d s => Inv x (ps ++ List.replicate d.length pts) s) frames
    (d := []) (by simpa using h) ?_
  intro d f rest s hsplit hs
  rw [List.nil_append] at hsplit
  have hlength : frames.length = d.length + 1 + rest.length := by
    rw [hsplit, List.length_append, List.length_cons]
    omega
  have hpre : ps ++ List.replicate (d.length + 1) pts <+: x.framePts := by
    rw [hqs, List.prefix_append_right_inj, hlength, List.replicate_add _ rest.length,
      List.append_assoc]
    exact List.prefix_append _ _
  rw [List.replicate_succ', ← List.append_assoc] at hpre
  rw [List.length_append, List.length_singleton, List.replicate_succ', ← List.append_assoc]
  exact (onFrame_inv hs pts f).imp_ret fun _ hr => ⟨_, pts, hpre, hs.referred, hr⟩

/-- **One packet.** -/
theorem onPacket_between (hes : x.events = some es) {e : Event} (hsplit : es = done ++ e :: rest)
    (hlt : s.haveWrite < x.tms.length) (h : Between x done s) :
    Flow.Holds (Between x (done ++ [e]))
      (fun r => (∃ pts, e = .rejected pts) ∧ Outcome x r ∨ Stops x r) (onPacket x e s) := by
  have hpts : x.framePts = framePts done ++ framePts (e :: rest) := by
    rw [x.framePts_of_events hes, hsplit]
    exact framePts_append h.1 _
  have hread : Inv x (framePts done) (s.call .readFrame) :=
    h.2.same ⟨writes_readFrame _, rfl, rfl, rfl⟩ rfl rfl
  have hunref : ∀ {s : State}, Inv x (framePts (done ++ [e])) s →
      Inv x (framePts (done ++ [e])) (s.call .unref) :=
    fun hs => hs.same ⟨writes_unref _, rfl, rfl, rfl⟩ rfl rfl
  cases e with
  | other =>
    refine ⟨h.1.concat (by simp), hunref ?_⟩
    rw [framePts_append h.1]
    simpa using hread
  | rejected pts =>
    rw [framePts_rejected, List.append_nil] at hpts
    refine Or.inl ⟨⟨pts, rfl⟩, .left (framePts done) (hpts ▸ List.prefix_refl _) hread.served
      h.2.referred (by simp) (Or.inr (h.2.pending hlt)) fun _ => .atEnd hpts.symm (Or.inl ?_)⟩
    intro haccepts
    rcases haccepts with ⟨es', hes', hnone⟩
    rw [hes] at hes'
    rw [← Option.some.inj hes', hsplit] at hnone
    exact hnone (.rejected pts) (by simp) pts rfl
  | accepted pts frames =>
    rw [framePts_accepted] at hpts
    refine Flow.Holds.bind ((forEach_onFrame_inv hread pts frames hpts).imp_ret
      fun _ hr => Or.inr hr) fun s hs => ?_
    refine ⟨h.1.concat (by simp), hunref ?_⟩
    rw [framePts_append h.1]
    simpa using hs

/-- The table in the middle of the loop after the end of the stream. -/
def fallbackAt (x : Context) (ps : List ℤ) (k idx : ℕ) : Option Entry :=
  if idx < k then x.finalEntry ps idx else x.loopEntry ps idx

/-- One index after the end of the stream. -/
theorem fallbackIndex_served {k : ℕ} (hk : k < x.tms.length)
    (h : Served x (fallbackAt x ps k) s) (hpicture : s.encodeFrame = x.fallbackPicture ps) :
    Flow.Holds (fun s' => Served x (fallbackAt x ps (k + 1)) s' ∧
      s'.encodeFrame = x.fallbackPicture ps) (Outcome x) (fallbackIndex x k s) := by
  have hneed := h.needWrite k hk
  have hat : fallbackAt x ps k k = x.loopEntry ps k := if_neg (lt_irrefl k)
  rw [hat] at hneed
  simp only [fallbackIndex, hneed]
  have hother : ∀ idx, idx ≠ k → fallbackAt x ps (k + 1) idx = fallbackAt x ps k idx := by
    intro idx hidx
    have hlt : idx < k + 1 ↔ idx < k := by omega
    simp only [fallbackAt, hlt]
  have hself : fallbackAt x ps (k + 1) k = x.finalEntry ps k := if_pos (Nat.lt_succ_self k)
  cases hentry : x.loopEntry ps k with
  | none =>
    refine ⟨((h.write hk (hat.trans hentry) ⊤).congr ?_), hpicture⟩
    intro idx _
    by_cases hidx : idx = k
    · rw [hidx, hself, Function.update_self, hpicture, Context.finalEntry, hentry, Option.getD_none]
    · rw [hother idx hidx, Function.update_of_ne hidx]
  | some entry =>
    refine ⟨h.congr ?_, hpicture⟩
    intro idx _
    by_cases hidx : idx = k
    · rw [hidx, hself, hat, Context.finalEntry, hentry, Option.getD_some]
    · exact hother idx hidx

/-- The indices left over. -/
theorem fallback_outcome (h : Inv x x.framePts s) (hlt : s.haveWrite < x.tms.length) :
    Flow.Holds (fun s' => Served x (x.finalEntry x.framePts) s' ∧
      (x.needResize = true → x.refAfter x.framePts ≠ none)) (Outcome x) (fallback x s) := by
  refine Flow.Holds.bind ((filterFrame_filtered s).imp_ret ?_) fun s' hs => ?_
  · intro r hr
    refine .left x.framePts (List.prefix_refl _) (h.served.same hr.same) h.referred hr.code
      (Or.inr (h.pending hlt)) fun hh => .atEnd rfl (Or.inr ⟨hr.resize, ?_⟩)
    rw [← h.ref]
    exact hr.filters hh
  · have hnonempty : x.needResize = true → x.refAfter x.framePts ≠ none := by
      rw [← h.ref]
      exact hs.nonempty
    have hpicture : s'.encodeFrame = x.fallbackPicture x.framePts := by
      rw [hs.picture, h.ref, Context.fallbackPicture, Context.refAfter]
      split
      · rfl
      · simp only [Context.reference]
        split_ifs <;> simp
    refine Flow.Holds.bind (Flow.holds_forEach_range
      (fun k s => Served x (fallbackAt x x.framePts k) s ∧
        s.encodeFrame = x.fallbackPicture x.framePts) x.tms.length
      ⟨(h.served.same hs.same).congr fun idx _ => if_neg (Nat.not_lt_zero idx), hpicture⟩
      fun k hk s hs => fallbackIndex_served hk hs.1 hs.2) fun s hs => ?_
    refine ⟨(hs.1.congr ?_).of_eq rfl rfl rfl, hnonempty⟩
    intro idx hidx
    exact (if_pos hidx).symm

/-- The packets `done` are read before those that are left. -/
def Context.Reads (x : Context) (es done : List Event) : Prop :=
  ∀ rest, es = done ++ rest → x.read [] es = done ++ x.read (Video.framePts done) rest

theorem Context.Reads.concat (h : x.Reads es done) {e : Event} (hdone : NoneRejected done)
    (hpending : ∃ idx < x.tms.length, x.firstDue (Video.framePts done) idx = none) :
    x.Reads es (done ++ [e]) := by
  intro rest hsplit
  rw [List.append_assoc, List.singleton_append] at hsplit
  rw [h _ hsplit, x.read_cons_of_pending hpending, framePts_append hdone, List.append_assoc,
    List.singleton_append]

/-- At the end of the loop over the packets. -/
theorem Context.Reads.eq (h : x.Reads es done) (hes : x.events = some es)
    (hsplit : es = done ++ rest)
    (hend : rest = [] ∨ ∀ idx < x.tms.length, x.firstDue (Video.framePts done) idx ≠ none) :
    Video.framePts done = x.decodedPts := by
  have hread : x.read (Video.framePts done) rest = [] := by
    rcases hend with rfl | hall
    · rfl
    · exact x.read_of_due hall rest
  rw [x.decodedPts_of_events hes, h rest hsplit, hread, List.append_nil]

theorem fallback_received (s : State) :
    Flow.Holds (fun s' => s'.received = s.received) (fun _ => True) (fallback x s) := by
  refine Flow.Holds.bind ((filterFrame_filtered s).imp (fun _ hs => hs.same.received)
    fun _ _ => trivial) fun s₁ hs₁ => ?_
  refine Flow.Holds.bind (P := fun s' : State => s'.received = s.received)
    (Flow.holds_forEach_const _ hs₁ fun idx s₂ hs₂ => ?_) fun s₃ hs₃ => ?_
  · simp only [fallbackIndex]
    split_ifs <;> exact hs₂
  · exact hs₃

/-- **The result of every run.** -/
theorem run_outcome (x : Context) : Flow.Holds (fun _ => False) (Outcome x) (run x) := by
  cases hes : x.events with
  | none =>
    have hpts : x.framePts = [] := by rw [Context.framePts, hes]; rfl
    simp only [run, hes]
    refine .left [] List.nil_prefix Served.init x.referred_nil (by simp) (Or.inl hes)
      fun _ => .atEnd hpts.symm (Or.inl ?_)
    intro haccepts
    rcases haccepts with ⟨es, hes', _⟩
    rw [hes] at hes'
    exact Option.some_ne_none _ hes'.symm
  | some es =>
    simp only [run, hes]
    have hloop := Flow.holds_forEachWhile (Q := Outcome x)
      (fun done s => Between x done s ∧ x.Reads es done) es (d := [])
      ⟨⟨fun _ he => absurd he List.not_mem_nil, Inv.init⟩, fun rest hrest => hrest ▸ rfl⟩
      fun done e rest s hsplit (hcond : decide (s.haveWrite < x.tms.length) = true) hs =>
        (onPacket_between hes hsplit (of_decide_eq_true hcond) hs.1).imp
          (fun _ hb => ⟨hb, hs.2.concat hs.1.1 (hs.1.2.pending (of_decide_eq_true hcond))⟩)
          fun _ hr => hr.elim And.right Stops.outcome
    refine Flow.Holds.bind hloop fun s hs => ?_
    rcases hs with ⟨done, rest, hsplit, ⟨hbetween, hreads⟩, hend⟩
    have hpts : x.framePts = framePts done ++ framePts rest := by
      rw [x.framePts_of_events hes]
      exact (congrArg framePts hsplit).trans (framePts_append hbetween.1 rest)
    by_cases hlt : s.haveWrite < x.tms.length
    · rw [if_pos hlt]
      have hrest : rest = [] := by
        rcases hend with hend | hend
        · exact hend
        · exact absurd hlt (of_decide_eq_false hend)
      rw [hrest, framePts_nil, List.append_nil] at hpts
      have hinv : Inv x x.framePts s := hpts ▸ hbetween.2
      have haccepts : x.Accepts := by
        rw [hrest, List.append_nil] at hsplit
        exact ⟨done, hes.trans (congrArg some hsplit), hbetween.1⟩
      have hdecoded := hreads.eq hes hsplit (Or.inl hrest)
      refine Flow.Holds.bind ((fallback_outcome hinv hlt).and (fallback_received s) |>.imp
        (fun _ h => h) fun _ h => h.1) fun s' hs' => ?_
      exact .fell (hs'.1.1.of_eq rfl rfl rfl) hinv.referred rfl haccepts hs'.1.2
        (hpts.trans hdecoded) (hs'.2.trans hinv.received)
    · rw [if_neg hlt]
      have hevery : ∀ idx < x.tms.length, x.firstDue (framePts done) idx ≠ none := by
        intro idx hidx hnone
        exact hlt (hbetween.2.served.haveWrite_lt_iff.2 ⟨idx, hidx, x.loopEntry_of_none hnone⟩)
      refine .reached (framePts done) ?_ (hbetween.2.served.of_eq rfl rfl rfl)
        hbetween.2.referred rfl (by simp [hes]) hevery (hreads.eq hes hsplit (Or.inr hevery))
        hbetween.2.received
      rw [hpts]
      exact List.prefix_append _ _

/-! ## Termination -/

section termination
variable (x)

theorem filterFrame_ne_hang (s : State) : filterFrame x s ≠ Flow.hang := by
  simp only [filterFrame]
  cases s.ref with
  | none => split_ifs <;> simp
  | some picture => split_ifs <;> simp

theorem onFrame_ne_hang (pts : ℤ) (f : Frame) (s : State) : onFrame x pts f s ≠ Flow.hang := by
  refine Flow.bind_ne_hang (Flow.forEach_ne_hang _ _ fun idx q => ?_) fun q _ => by simp
  rcases q with ⟨process, s⟩
  simp only [tryIndex]
  split_ifs
  · exact Flow.bind_ne_hang (filterFrame_ne_hang x s) fun s _ => by simp
  · simp
  · simp

theorem onPacket_ne_hang (e : Event) (s : State) : onPacket x e s ≠ Flow.hang := by
  cases e with
  | other => simp [onPacket]
  | rejected pts => simp [onPacket]
  | accepted pts frames =>
    exact Flow.bind_ne_hang (Flow.forEach_ne_hang _ _ (onFrame_ne_hang x pts)) fun s _ => by simp

theorem fallback_ne_hang (s : State) : fallback x s ≠ Flow.hang := by
  refine Flow.bind_ne_hang (filterFrame_ne_hang x s) fun s _ =>
    Flow.bind_ne_hang (Flow.forEach_ne_hang _ _ fun idx s => ?_) fun s _ => by simp
  simp only [fallbackIndex]
  split_ifs <;> simp

/-- **Every run ends.** -/
theorem run_eq_ret : ∃ r, run x = Flow.ret r := by
  have hends : run x ≠ Flow.hang := by
    simp only [run]
    split
    · simp
    · refine Flow.bind_ne_hang (Flow.forEachWhile_ne_hang _ _ (onPacket_ne_hang x)) fun s _ =>
        Flow.bind_ne_hang ?_ fun s _ => by simp
      split_ifs
      · exact fallback_ne_hang x s
      · simp
  rcases (run_outcome x).exists_ret hends with ⟨r, hr, -⟩
  exact ⟨r, hr⟩

theorem outcome_of_run {r : ℤ × State} (hr : run x = Flow.ret r) : Outcome x r := by
  have houtcome := run_outcome x
  rwa [hr, Flow.holds_ret] at houtcome

end termination
end result
end AudioCrash.Video
