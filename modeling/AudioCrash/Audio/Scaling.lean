import AudioCrash.Audio.Draining

/-!
# How the chunks are scaled

`AudioVolume` and `AudioGradient` decode the whole input first. Only then do they take the
chunks out of the resampler, so that every chunk is scaled with the same decoded frames and
the same total, and a position that is the number of samples handed over before.

## Main definitions

* `Scaled` — a chunk is a block of the stream, scaled as at its start.
* `run_scaled` — every chunk of every run.
* `gradient_scaled` — the chunks of `AudioGradient`.
-/

namespace AudioCrash.Audio

/-! ## The chunks of a run -/

section run
variable {α : Type} (x : Context α)

/-- The chunk `j` handed over holds the block `j` of the stream, scaled with all the decoded
frames, the position where the block starts, and the total. -/
structure Scaled (stream : List (Sample α)) (frames : List (AVFrame α)) (j : ℕ)
    (h : List (Sample α) × AVFrame α) : Prop where
  chunk : h.1 = (stream.drop (j * x.F)).take x.F
  cell : ∀ p < x.C, ∀ i (hi : i < h.1.length), h.2.mem (pcm (planeAt x.F) p i) =
    x.pipeline.gain ⟨frames, j * x.F, totalSamples frames⟩ (h.1[i] p)

/-- The chunks handed over so far are scaled blocks. -/
def AllScaled (stream : List (Sample α)) (frames : List (AVFrame α)) (log : List (Call α)) :
    Prop :=
  ∀ j h, (handed log)[j]? = some h → Scaled x stream frames j h

/-- The invariant of the drain loop once everything has been decoded. -/
structure Told (stream : List (Sample α)) (frames : List (AVFrame α)) (s : State α) : Prop where
  decoded : s.decoded = frames
  nframes : s.feed.nframes = totalSamples frames
  pos : s.pos = (handed s.log).length * x.F
  fifo : s.fifo = stream.drop ((handed s.log).length * x.F)
  scaled : AllScaled x stream frames s.log

variable {x}
variable {stream : List (Sample α)} {frames : List (AVFrame α)} {s s' : State α}

theorem AllScaled.nil {log : List (Call α)} (h : handed log = []) :
    AllScaled x stream frames log := by
  intro j c hc
  simp [h] at hc

theorem AllScaled.of_eq {log log' : List (Call α)} (h : AllScaled x stream frames log)
    (hlog : handed log' = handed log) : AllScaled x stream frames log' := by
  rw [AllScaled, hlog]
  exact h

theorem AllScaled.concat {log log' : List (Call α)} {c : List (Sample α) × AVFrame α}
    (h : AllScaled x stream frames log) (hlog : handed log' = handed log ++ [c])
    (hc : Scaled x stream frames (handed log).length c) : AllScaled x stream frames log' := by
  intro j c' hc'
  rw [hlog, List.getElem?_append] at hc'
  split_ifs at hc' with hj
  · exact h j c' hc'
  · rw [List.getElem?_singleton] at hc'
    split_ifs at hc' with hlast
    cases hc'
    rwa [show j = (handed log).length by omega]

/-- The chunk just pulled has been scaled with the arguments of `s` and handed over. -/
structure SentWith (s s' : State α) : Prop where
  fifo : s'.fifo = s.fifo.drop x.F
  decoded : s'.decoded = s.decoded
  feed : s'.feed = s.feed
  pos : s'.pos = s.pos + (s.fifo.take x.F).length
  handed : ∃ frame, handed s'.log = handed s.log ++ [(s.fifo.take x.F, frame)] ∧
    ∀ p < x.C, ∀ i (hi : i < (s.fifo.take x.F).length),
      frame.mem (pcm (planeAt x.F) p i) = x.pipeline.gain s.args ((s.fifo.take x.F)[i] p)

theorem sendChunk_with (x : Context α) (fillCode sendCode : ℤ) (s : State α) :
    Flow.Holds (SentWith (x := x) s)
      (fun r => handed r.2.log = handed s.log ∨ SentWith (x := x) s r.2)
      (sendChunk x fillCode sendCode (pull x s).1 (pull x s).2) := by
  have hloaded := pull_loaded x s
  have hcell : ∀ p < x.C, ∀ i (hi : i < (s.fifo.take x.F).length),
      x.pipeline.tune s.args (planeAt x.F) (s.fifo.take x.F).length x.C (pull x s).2.mem
        (pcm (planeAt x.F) p i) = x.pipeline.gain s.args ((s.fifo.take x.F)[i] p) := by
    intro p hp i hi
    have happart := planesApart_planeAt x.C (List.length_take_le x.F s.fifo)
    rw [x.pipeline.tune_cell s.args _ happart hp hi]
    exact congrArg _ (hloaded.cell p hp i hi)
  have hhanded : handed (handedOver x (pull x s).1 (pull x s).2).log =
      handed s.log ++ [((pull x s).1, frameOf x (pull x s).1 (pull x s).2)] := by
    rw [handed_handedOver, pull_handed]
  have hsent : SentWith (x := x) s (handedOver x (pull x s).1 (pull x s).2) :=
    ⟨rfl, rfl, rfl, rfl, _, hhanded, hcell⟩
  exact sendChunk_holds (Or.inl (pull_handed x s)) hsent (Or.inr hsent)

/-- A block that has been sent with the arguments of the invariant is scaled. -/
theorem Told.sent_scaled (h : Told x stream frames s) (hs : SentWith (x := x) s s') :
    AllScaled x stream frames s'.log := by
  rcases hs.handed with ⟨frame, hhanded, hcell⟩
  have hargs : s.args =
      ⟨frames, (handed s.log).length * x.F, totalSamples frames⟩ := by
    rw [State.args, h.decoded, h.pos, h.nframes]
  refine h.scaled.concat hhanded ⟨?_, ?_⟩
  · rw [← h.fifo]
  · rw [hargs] at hcell
    exact hcell

theorem Told.sent (h : Told x stream frames s) (hlt : x.F < s.fifo.length)
    (hs : SentWith (x := x) s s') : Told x stream frames s' := by
  rcases hs.handed with ⟨frame, hhanded, _⟩
  have hlen : (handed s'.log).length * x.F = (handed s.log).length * x.F + x.F := by
    rw [hhanded, List.length_append, List.length_singleton, Nat.succ_mul]
  refine ⟨hs.decoded.trans h.decoded, ?_, ?_, ?_, h.sent_scaled hs⟩
  · rw [hs.feed, h.nframes]
  · rw [hs.pos, h.pos, hlen, List.length_take_of_le hlt.le]
  · rw [hs.fifo, h.fifo, hlen, List.drop_drop]

/-- The packets of the encoder change nothing that the program is told. -/
structure Unheard (s s' : State α) : Prop where
  quiet : Quiet s s'
  decoded : s'.decoded = s.decoded
  pos : s'.pos = s.pos

theorem receivePackets_unheard (x : Context α) (code : ℤ) (s : State α) :
    Flow.Holds (Unheard s) (fun r => r.1 = code ∧ Quiet s r.2) (receivePackets x code s) := by
  have hpos : Flow.Holds (fun s' => s'.pos = s.pos) (fun _ => True) (receivePackets x code s) := by
    refine Flow.holds_forEach_const (P := fun s' : State α => s'.pos = s.pos) _ rfl ?_
    intro pkt s' hs'
    simp only [receivePacket]
    split_ifs
    · exact hs'
    · trivial
    · exact hs'
  refine (((receivePackets_quiet x code s).and (receivePackets_keeps x code s)).and hpos).imp ?_
    fun _ hr => hr.1.1
  rintro s' ⟨⟨hquiet, hkept⟩, hpos⟩
  exact ⟨hquiet, hkept.decoded, hpos⟩

theorem Told.unheard (h : Told x stream frames s) (hu : Unheard s s') :
    Told x stream frames s' where
  decoded := hu.decoded.trans h.decoded
  nframes := by rw [hu.quiet.feed, h.nframes]
  pos := by rw [hu.quiet.handed, hu.pos, h.pos]
  fifo := by rw [hu.quiet.handed, hu.quiet.fifo, h.fifo]
  scaled := h.scaled.of_eq hu.quiet.handed

theorem drain_told (h : Told x stream frames s) :
    Flow.Holds (fun s' => Told x stream frames s' ∧ s'.fifo.length ≤ x.F)
      (fun r => AllScaled x stream frames r.2.log) (drain x s) := by
  refine drain_of_step ?_ h
  intro s hlt h
  refine Flow.Holds.bind ((sendChunk_with x _ _ s).imp (fun _ hs => h.sent hlt hs) ?_) ?_
  · rintro r (hr | hr)
    · exact h.scaled.of_eq hr
    · exact h.sent_scaled hr
  · intro s' hs'
    refine (receivePackets_unheard x _ s').imp (fun _ hu => hs'.unheard hu) ?_
    intro r hr
    exact hs'.scaled.of_eq hr.2.handed

theorem finish_told (h : Told x stream frames s) (hle : s.fifo.length ≤ x.F) :
    Flow.Holds (fun _ => False) (fun r => AllScaled x stream frames r.2.log) (finish x s) := by
  refine finish_of_tail (D := fun s => AllScaled x stream frames s.log)
    (fun s s' hs hq => hs.of_eq hq.handed) (fun _ _ hs => hs) ?send ?nil hle
  case send =>
    intro _
    refine (sendChunk_with x _ _ s).imp (fun _ hs => h.sent_scaled hs) ?_
    rintro r (hr | hr)
    · exact h.scaled.of_eq hr
    · exact h.sent_scaled hr
  case nil => exact fun _ => h.scaled.of_eq (pull_handed x s)

/-- Nothing is handed over inside the loop over the packets. -/
theorem forEach_untouched (hi : x.pipeline.interleaved = false) (events : List (Event α))
    (mem : ℤ → α) (handle : ℕ → ℤ) :
    Flow.Holds (fun s => s.pos = 0 ∧ handed s.log = []) (fun r => handed r.2.log = [])
      (Flow.forEach (onPacket x) events (State.init x mem handle)) := by
  have hpush : ∀ (f : AVFrame α) (s : State α), s.pos = 0 ∧ handed s.log = [] →
      Flow.Holds (fun s => s.pos = 0 ∧ handed s.log = []) (fun r => handed r.2.log = [])
        (push x f s) := by
    rintro f s ⟨hpos, hhanded⟩
    simp only [push]
    split_ifs
    · exact ⟨hpos, by simp [hhanded]⟩
    · exact hhanded
  refine Flow.holds_forEach_const (P := fun s : State α => s.pos = 0 ∧ handed s.log = []) events
    ⟨rfl, rfl⟩ ?_
  rintro e s ⟨hpos, hhanded⟩
  have hread : handed (s.call .readFrame).log = [] := (handed_quiet rfl s.log).trans hhanded
  cases e with
  | other => exact ⟨hpos, (handed_quiet rfl _).trans hread⟩
  | rejected => exact ⟨hpos, (handed_quiet rfl _).trans hread⟩
  | accepted frames =>
    refine Flow.Holds.bind (P := fun s => s.pos = 0 ∧ handed s.log = []) (Flow.Holds.bind
      (Flow.holds_forEach_const frames ⟨hpos, hread⟩ hpush) fun s hs => ?drained) fun s hs => ?unref
    case drained =>
      rw [if_neg (by simp [hi])]
      exact hs
    case unref => exact ⟨hs.1, (handed_quiet rfl _).trans hs.2⟩

theorem nframes_stream (hfeed : x.pipeline.feed = feedFrame) (handle : ℕ → ℤ)
    (frames : List (AVFrame α)) :
    (x.stream handle frames).1.nframes = totalSamples frames := by
  induction frames using List.reverseRecOn with
  | nil => rfl
  | append_singleton frames f ih =>
    rw [Context.stream_concat, totalSamples_append]
    simp [Context.feedStep, hfeed, feedFrame, ih]

/-- What is known when the loop over the packets is left. -/
theorem forEach_told (hi : x.pipeline.interleaved = false) (hfeed : x.pipeline.feed = feedFrame)
    (events : List (Event α)) (mem : ℤ → α) (handle : ℕ → ℤ) :
    Flow.Holds (Told x (sampleFrames x.fmt x.C (allFrames events)) (allFrames events))
      (fun r => handed r.2.log = [])
      (Flow.forEach (onPacket x) events (State.init x mem handle)) := by
  have hbetween : Flow.Holds (Between x handle events) (Failed x)
      (Flow.forEach (onPacket x) events (State.init x mem handle)) :=
    Flow.holds_forEach (fun pre s => Between x handle pre s) events (d := [])
      ⟨Inv.init mem handle, fun _ => Nat.zero_le _⟩ fun _ e _ _ _ hs => onPacket_between e hs
  refine ((hbetween.and (forEach_decoded x events mem handle)).and
    (forEach_untouched hi events mem handle)).imp ?_ fun _ hr => hr.2
  rintro s ⟨⟨⟨hinv, _⟩, hdecoded, _⟩, hpos, hhanded⟩
  have hqueue := hinv.queue
  rw [chunks, hhanded, stream_feedFrame x hfeed] at hqueue
  refine ⟨hdecoded, ?_, ?_, ?_, AllScaled.nil hhanded⟩
  · rw [hinv.feed, nframes_stream hfeed]
  · simp [hpos, hhanded]
  · simpa [hhanded] using hqueue

/-- **Every chunk of every run** of a program that decodes first is a block of the stream,
scaled with all the decoded frames, the position where it starts, and the total. -/
theorem run_scaled (hi : x.pipeline.interleaved = false) (hfeed : x.pipeline.feed = feedFrame)
    (events : List (Event α)) (mem : ℤ → α) (handle : ℕ → ℤ) :
    Flow.Holds (fun _ => False)
      (fun r => AllScaled x (sampleFrames x.fmt x.C (allFrames events)) (allFrames events) r.2.log)
      (run x events (State.init x mem handle)) := by
  refine Flow.Holds.bind ((forEach_told hi hfeed events mem handle).imp_ret
    fun r hr => AllScaled.nil hr) fun s hs => ?_
  rw [if_neg (by simp [hi])]
  exact Flow.Holds.bind (drain_told hs) fun s hs => finish_told hs.1 hs.2

end run

theorem clamp_neg (x : ℚ) : clamp (-x) = -clamp x := by
  simp only [clamp, min_def, max_def]
  split_ifs <;> linarith

/-- Both branches of `AudioGradient.tune` clamp the product. -/
theorem AudioGradient.scaled_eq (scale x : ℚ) :
    AudioGradient.scaled scale x = clamp (x * scale) := by
  simp only [AudioGradient.scaled]
  split_ifs with hx
  · rfl
  · rw [abs_of_neg (not_le.1 hx), neg_mul, clamp_neg, neg_neg]

/-- The value of the script at the start of the block that the sample `k` is in, in
milliseconds like the total. -/
def blockScale (main : ℚ → ℚ → ℚ) (sample_rate F N k : ℕ) : ℚ :=
  main (1000 * F * (k / F : ℕ) / sample_rate) (1000 * N / sample_rate)

section gradient
variable {main : ℚ → ℚ → ℚ} {sample_rate : ℕ} {x : Context ℚ}

/-- Every sample handed over is scaled by the value of its block. -/
theorem Scaled.cell_eq (hx : x.pipeline = audioGradient main sample_rate) {stream : List (Sample ℚ)}
    {frames : List (AVFrame ℚ)} {j : ℕ} {h : List (Sample ℚ) × AVFrame ℚ}
    (hs : Scaled x stream frames j h) {c i k : ℕ} (hc : c < x.C) (hi : i < h.1.length)
    (hjk : j * x.F + i = k) :
    ∃ hk : k < stream.length, h.2.mem (pcm (planeAt x.F) c i) =
      clamp (stream[k] c * blockScale main sample_rate x.F (totalSamples frames) k) := by
  subst hjk
  have hlen : i < x.F ∧ j * x.F + i < stream.length := by
    have hi' := hi
    rw [hs.chunk, List.length_take, List.length_drop] at hi'
    omega
  have hvalue : h.1[i] c = stream[j * x.F + i] c := by
    have hget : h.1[i]? = stream[j * x.F + i]? := by
      rw [hs.chunk, List.getElem?_take_of_lt hlen.1, List.getElem?_drop]
    rw [List.getElem?_eq_getElem hi, List.getElem?_eq_getElem hlen.2, Option.some.injEq] at hget
    rw [hget]
  have hblock : (j * x.F + i) / x.F = j := by
    rw [Nat.mul_comm, Nat.mul_add_div (by omega), Nat.div_eq_of_lt hlen.1, Nat.add_zero]
  refine ⟨hlen.2, ?_⟩
  rw [hs.cell c hc i hi, hx, hvalue, blockScale, hblock]
  simp only [audioGradient, AudioGradient.scaled_eq]
  congr 3
  · push_cast
    ring
  · push_cast
    ring

end gradient
end AudioCrash.Audio
