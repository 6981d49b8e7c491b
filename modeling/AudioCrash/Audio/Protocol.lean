import AudioCrash.Audio.Encoding

/-!
# The order of the calls

The FFmpeg functions want to be called in an order: a packet of the input is unreferenced
before the next one is read, a block is pulled before the frame that exposes it is filled and
handed over, a packet of the encoder is written at once, and nothing is handed to the encoder
after the end of its stream, which is announced once and before the trailer. The order is that
of an automaton, and every run keeps to it, also one that fails.

## Main definitions

* `Phase`, `Next`, `Legal` — the automaton, and the calls that it allows.
* `At` — where a state of `run` is.
* `Wound`, `Legal.wound` — a run that has come to its end.
* `run_legal` — every run.
-/

namespace AudioCrash.Audio

/-! ## The automaton -/

/-- What was done last, of what matters for the next call. -/
inductive Stage (α : Type) where
  /-- Decoded frames are pushed. -/
  | feeding
  /-- The block has been pulled. -/
  | pulled (chunk : List (Sample α))
  /-- `encode_frame` exposes the block. -/
  | filled (chunk : List (Sample α))
  /-- The encoder has been given a frame, or the end of its stream. -/
  | encoding (eof : Bool)
  /-- The encoder has delivered a packet. -/
  | received (eof : Bool) (pkt : Packet)
  | closed

/-- More may be decoded, or pulled. -/
def Stage.Ready {α : Type} : Stage α → Prop
  | feeding => True
  | encoding eof => eof = false
  | _ => False

/-- Whether a packet of the input is held, whether the next packet of the encoder is dropped, and
what was done last. -/
structure Phase (α : Type) where
  held : Bool
  drop : Bool
  stage : Stage α

section automaton
variable {α : Type} (x : Context α)

/-- The calls that may follow. -/
inductive Next : Phase α → Call α → Phase α → Prop where
  | readFrame {d st} (ready : Stage.Ready st) : Next ⟨false, d, st⟩ .readFrame ⟨true, d, .feeding⟩
  | unref {d st} (ready : Stage.Ready st) : Next ⟨true, d, st⟩ .unref ⟨false, d, st⟩
  | push {d} (xs) : Next ⟨true, d, .feeding⟩ (.push xs) ⟨true, d, .feeding⟩
  | pull {held d st} (chunk) (ready : Stage.Ready st) (le : chunk.length ≤ x.F) :
      Next ⟨held, d, st⟩ (.pull chunk) ⟨held, d, .pulled chunk⟩
  | fill {held d chunk} (ne : x.F ≠ 0 → chunk ≠ []) :
      Next ⟨held, d, .pulled chunk⟩ .fill ⟨held, d, .filled chunk⟩
  | sendFrame {held d chunk} (frame) (length : frame.nbSamples = chunk.length) :
      Next ⟨held, d, .filled chunk⟩ (.sendFrame chunk frame) ⟨held, d, .encoding false⟩
  | dropPacket {held eof} (pkt) :
      Next ⟨held, true, .encoding eof⟩ (.receivePacket pkt) ⟨held, false, .encoding eof⟩
  | receivePacket {held eof} (pkt) :
      Next ⟨held, false, .encoding eof⟩ (.receivePacket pkt) ⟨held, false, .received eof pkt⟩
  | writeFrame {held eof pkt} :
      Next ⟨held, false, .received eof pkt⟩ (.writeFrame (x.stamp pkt))
        ⟨held, false, .encoding eof⟩
  /-- After the rest of the samples, if there is one. -/
  | sendNull {d st} (last : st = .encoding false ∨ st = .pulled []) :
      Next ⟨false, d, st⟩ .sendNull ⟨false, d, .encoding true⟩
  | writeTrailer {d} : Next ⟨false, d, .encoding true⟩ .writeTrailer ⟨false, d, .closed⟩

/-- The calls in this order lead to the phase. -/
inductive Legal : List (Call α) → Phase α → Prop where
  | start : Legal [] ⟨false, true, .feeding⟩
  | call {log ph c ph'} (legal : Legal log ph) (next : Next x ph c ph') : Legal (log ++ [c]) ph'

/-- A state of `run` is in the phase. -/
structure At (ph : Phase α) (s : State α) : Prop where
  legal : Legal x s.log ph
  drop : s.drop = ph.drop

variable {x} {held d eof : Bool} {st : Stage α} {s : State α}

theorem At.call {ph ph' : Phase α} {c : Call α} (h : At x ph s) (hnext : Next x ph c ph')
    (hd : ph'.drop = ph.drop) : At x ph' (s.call c) :=
  ⟨h.legal.call hnext, h.drop.trans hd.symm⟩

/-! ## What has come to an end -/

/-- The encoder is drained or the output closed. -/
def Call.ends : Call α → Bool
  | .sendNull => true
  | .writeTrailer => true
  | _ => false

/-- The call takes from the encoder, or gives to the muxer. -/
def Call.outputs : Call α → Bool
  | .receivePacket _ => true
  | .writeFrame _ => true
  | _ => false

/-- The encoder is told once that its stream ends; after that its packets are received and
written, and nothing else. -/
def Flushed (log : List (Call α)) : Prop :=
  ∃ before after, log = before ++ .sendNull :: after ∧ (∀ c ∈ before, c.ends = false) ∧
    ∀ c ∈ after, c.outputs = true

/-- And the trailer is the last that is written. -/
def Wound (log : List (Call α)) : Prop := ∃ log', Flushed log' ∧ log = log' ++ [.writeTrailer]

/-- What the stage says of the end. -/
def Stage.Summary : Stage α → List (Call α) → Prop
  | encoding true => Flushed
  | received true _ => Flushed
  | closed => Wound
  | _ => fun log => ∀ c ∈ log, c.ends = false

theorem Stage.Ready.summary {log : List (Call α)} (h : st.Ready) (hs : st.Summary log) :
    ∀ c ∈ log, c.ends = false := by
  cases st with
  | feeding => exact hs
  | encoding eof =>
    obtain rfl : eof = false := h
    exact hs
  | pulled chunk => exact h.elim
  | filled chunk => exact h.elim
  | received eof pkt => exact h.elim
  | closed => exact h.elim

theorem ends_concat {log : List (Call α)} {c : Call α} (h : ∀ c ∈ log, c.ends = false)
    (hc : c.ends = false) : ∀ c' ∈ log ++ [c], c'.ends = false := by
  intro c' hc'
  rw [List.mem_append, List.mem_singleton] at hc'
  rcases hc' with hmem | rfl
  · exact h c' hmem
  · exact hc

theorem Flushed.concat {log : List (Call α)} {c : Call α} (h : Flushed log)
    (hc : c.outputs = true) : Flushed (log ++ [c]) := by
  rcases h with ⟨before, after, rfl, hbefore, hafter⟩
  refine ⟨before, after ++ [c], by simp, hbefore, fun c' hc' => ?_⟩
  rw [List.mem_append, List.mem_singleton] at hc'
  rcases hc' with hmem | rfl
  · exact hafter c' hmem
  · exact hc

theorem Flushed.sendNull {log : List (Call α)} (h : ∀ c ∈ log, c.ends = false) :
    Flushed (log ++ [.sendNull]) := ⟨log, [], rfl, h, fun _ hc => absurd hc List.not_mem_nil⟩

/-- What the stage says holds of every legal order. -/
theorem Legal.summary {log : List (Call α)} {ph : Phase α} (h : Legal x log ph) :
    ph.stage.Summary log := by
  induction h with
  | start => exact fun _ hc => absurd hc List.not_mem_nil
  | @call log ph c ph' hlegal hnext ih =>
    cases hnext with
    | readFrame hready => exact ends_concat (hready.summary ih) rfl
    | @unref d st hready =>
      have hends := ends_concat (c := .unref) (hready.summary ih) rfl
      cases st with
      | feeding => exact hends
      | encoding eof =>
        obtain rfl : eof = false := hready
        exact hends
      | pulled chunk => exact hready.elim
      | filled chunk => exact hready.elim
      | received eof pkt => exact hready.elim
      | closed => exact hready.elim
    | push xs => exact ends_concat ih rfl
    | pull chunk hready hle => exact ends_concat (hready.summary ih) rfl
    | fill hne => exact ends_concat ih rfl
    | sendFrame frame hlength => exact ends_concat ih rfl
    | @dropPacket held eof pkt =>
      cases eof with
      | true => exact Flushed.concat ih rfl
      | false => exact ends_concat ih rfl
    | @receivePacket held eof pkt =>
      cases eof with
      | true => exact Flushed.concat ih rfl
      | false => exact ends_concat ih rfl
    | @writeFrame held eof pkt =>
      cases eof with
      | true => exact Flushed.concat ih rfl
      | false => exact ends_concat ih rfl
    | @sendNull d st hlast =>
      rcases hlast with rfl | rfl
      · exact Flushed.sendNull ih
      · exact Flushed.sendNull ih
    | writeTrailer => exact ⟨log, ih, rfl⟩

end automaton

/-! ## The statements -/

section run
variable {α : Type} {x : Context α} {held d eof : Bool} {st : Stage α} {s : State α}

/-- Resting two packets of the input, or two blocks. -/
def Resting (x : Context α) (held : Bool) (s : State α) : Prop :=
  ∃ d st, Stage.Ready st ∧ At x ⟨held, d, st⟩ s

/-- Resting two packets of the encoder. -/
def Encoding (x : Context α) (held eof : Bool) (s : State α) : Prop :=
  ∃ d, At x ⟨held, d, .encoding eof⟩ s

/-- A run that is left has kept to the order, and has come to its end if it succeeds. -/
def Ended (x : Context α) (r : ℤ × State α) : Prop :=
  ∃ ph, Legal x r.2.log ph ∧ (r.1 = 0 → ph.stage = .closed)

theorem At.ended {ph : Phase α} {code : ℤ} (h : At x ph s) (hcode : code ≠ 0) :
    Ended x (code, s) := ⟨ph, h.legal, fun hzero => absurd hzero hcode⟩

theorem Encoding.resting (h : Encoding x held false s) : Resting x held s := by
  rcases h with ⟨d, hat⟩
  exact ⟨d, .encoding false, rfl, hat⟩

/-- Where a state is does not depend on the other variables. -/
theorem At.congr {ph : Phase α} {s' : State α} (h : At x ph s) (hlog : s'.log = s.log)
    (hdrop : s'.drop = s.drop) : At x ph s' := by
  refine ⟨?_, hdrop.trans h.drop⟩
  rw [hlog]
  exact h.legal

theorem push_at (f : AVFrame α) (h : At x ⟨true, d, .feeding⟩ s) :
    Flow.Holds (At x ⟨true, d, .feeding⟩) (Ended x) (push x f s) := by
  simp only [push]
  split_ifs
  · exact (h.call (.push _) rfl).congr rfl rfl
  · exact (h.congr rfl rfl).ended (by decide)

theorem pull_at (hready : st.Ready) (h : At x ⟨held, d, st⟩ s) :
    At x ⟨held, d, .pulled (pull x s).1⟩ (pull x s).2 :=
  (h.call (.pull _ hready (List.length_take_le _ _)) rfl).congr rfl rfl

theorem sendChunk_at {fillCode sendCode : ℤ} {chunk : List (Sample α)} (hfill : fillCode ≠ 0)
    (hsend : sendCode ≠ 0) (hne : x.F ≠ 0 → chunk ≠ []) (h : At x ⟨held, d, .pulled chunk⟩ s) :
    Flow.Holds (Encoding x held false) (Ended x) (sendChunk x fillCode sendCode chunk s) := by
  have htuned : At x ⟨held, d, .pulled chunk⟩ (tuned x chunk s) := h.congr rfl rfl
  have hfilled : At x ⟨held, d, .filled chunk⟩ (filled x chunk s) :=
    (htuned.call (.fill hne) rfl).congr rfl rfl
  have hsent : At x ⟨held, d, .encoding false⟩ (handedOver x chunk s) :=
    hfilled.call (.sendFrame _ rfl) rfl
  exact sendChunk_holds (htuned.ended hfill) ⟨d, hsent⟩ (hsent.ended hsend)

theorem receivePacket_at {code : ℤ} (hcode : code ≠ 0) (pkt : Packet)
    (h : Encoding x held eof s) :
    Flow.Holds (Encoding x held eof) (Ended x) (receivePacket x code pkt s) := by
  rcases h with ⟨d, hat⟩
  have hdrop : s.drop = d := hat.drop
  cases d with
  | true =>
    simp only [receivePacket, State.call_drop, hdrop, Bool.not_true, Bool.false_eq_true, if_false]
    exact ⟨false, hat.legal.call (.dropPacket pkt), rfl⟩
  | false =>
    have hwrite : At x ⟨held, false, .encoding eof⟩
        ((s.call (.receivePacket pkt)).call (.writeFrame (x.stamp pkt))) :=
      (hat.call (.receivePacket pkt) rfl).call .writeFrame rfl
    simp only [receivePacket, State.call_drop, hdrop, Bool.not_false, if_true]
    split_ifs
    · exact ⟨false, hwrite⟩
    · exact hwrite.ended hcode

theorem receivePackets_at {code : ℤ} (hcode : code ≠ 0) (h : Encoding x held eof s) :
    Flow.Holds (Encoding x held eof) (Ended x) (receivePackets x code s) :=
  Flow.holds_forEach_const _ h fun pkt _ hs => receivePacket_at hcode pkt hs

theorem drain_at (h : Resting x held s) :
    Flow.Holds (Resting x held) (Ended x) (drain x s) := by
  refine (drain_of_step (fun s hlt hs => ?_) h).imp_next fun _ hs => hs.1
  rcases hs with ⟨d, st, hready, hat⟩
  have hne : x.F ≠ 0 → (pull x s).1 ≠ [] := by
    intro hF
    have hlength : (pull x s).1.length = x.F := List.length_take_of_le hlt.le
    exact List.ne_nil_of_length_pos (by omega)
  refine (sendChunk_at (by decide) (by decide) hne (pull_at hready hat)).bind fun s hs => ?_
  exact (receivePackets_at (by decide) hs).imp_next fun _ hs => hs.resting

theorem onPacket_at (event : Event α) (h : Resting x false s) :
    Flow.Holds (Resting x false) (Ended x) (onPacket x event s) := by
  rcases h with ⟨d, st, hready, hat⟩
  have hread : At x ⟨true, d, .feeding⟩ (s.call .readFrame) := hat.call (.readFrame hready) rfl
  have hunref : ∀ s, Resting x true s → Resting x false (s.call .unref) := by
    rintro s ⟨d, st, hready, hat⟩
    exact ⟨d, st, hready, hat.call (.unref hready) rfl⟩
  have hresting : ∀ s, At x ⟨true, d, .feeding⟩ s → Resting x true s :=
    fun s hs => ⟨d, .feeding, trivial, hs⟩
  cases event with
  | other => exact hunref _ (hresting _ hread)
  | rejected => exact hunref _ (hresting _ hread)
  | accepted frames =>
    have hpush := Flow.holds_forEach_const frames hread fun f _ hs => push_at f hs
    refine Flow.Holds.bind (P := Resting x true) (hpush.bind fun s hs => ?_)
      fun s hs => hunref s hs
    split_ifs
    · exact drain_at (hresting s hs)
    · exact hresting s hs

theorem finish_at (h : Resting x false s) :
    Flow.Holds (fun _ => False) (Ended x) (finish x s) := by
  rcases h with ⟨d, st, hready, hat⟩
  have hpull := pull_at hready hat
  refine Flow.Holds.bind
    (P := fun s => ∃ d st, (st = .encoding false ∨ st = .pulled []) ∧ At x ⟨false, d, st⟩ s)
    ?tail fun s hs => Flow.Holds.bind (P := Encoding x false true) ?null fun s hs =>
    (receivePackets_at (by decide) hs).bind fun s hs => ?trailer
  case tail =>
    split_ifs with hlength
    · refine (sendChunk_at (by decide) (by decide) (fun _ => List.ne_nil_of_length_pos hlength)
        hpull).imp_next fun s hs => ?_
      rcases hs with ⟨d, hs⟩
      exact ⟨d, _, Or.inl rfl, hs⟩
    · rw [List.eq_nil_of_length_eq_zero (Nat.eq_zero_of_not_pos hlength)] at hpull
      exact ⟨d, _, Or.inr rfl, hpull⟩
  case null =>
    rcases hs with ⟨d, st, hlast, hs⟩
    have hnull := hs.call (.sendNull hlast) rfl
    split_ifs
    · exact ⟨d, hnull⟩
    · exact hnull.ended (by decide)
  case trailer =>
    rcases hs with ⟨d, hs⟩
    have htrailer := hs.call .writeTrailer rfl
    split_ifs
    · exact ⟨_, htrailer.legal, fun _ => rfl⟩
    · exact htrailer.ended (by decide)

/-- **Every run keeps to the order**, also one that fails; and one that succeeds has told the
encoder once that its stream ends, has only received and written packets after that, and has
written the trailer last. -/
theorem run_legal (x : Context α) (events : List (Event α)) (mem : ℤ → α) (handle : ℕ → ℤ) :
    Flow.Holds (fun _ => False)
      (fun r => (∃ ph, Legal x r.2.log ph) ∧ (r.1 = 0 → Wound r.2.log))
      (run x events (State.init x mem handle)) := by
  have hinit : Resting x false (State.init x mem handle) := ⟨true, .feeding, trivial, .start, rfl⟩
  have hrun : Flow.Holds (fun _ => False) (Ended x) (run x events (State.init x mem handle)) := by
    have hloop := Flow.holds_forEach_const events hinit fun event _ hs => onPacket_at event hs
    refine hloop.bind fun s hs =>
      Flow.Holds.bind (P := Resting x false) ?_ fun s hs => finish_at hs
    split_ifs
    · exact hs
    · exact drain_at hs
  refine hrun.imp_ret ?_
  rintro r ⟨ph, hlegal, hclosed⟩
  refine ⟨⟨ph, hlegal⟩, fun hzero => ?_⟩
  have hsummary := hlegal.summary
  rw [hclosed hzero] at hsummary
  exact hsummary

end run
end AudioCrash.Audio
