import AudioCrash.Audio.Chunks

/-!
# Every run ends, and hands over the blocks of the stream

The drain loop takes samples out of the queue in every iteration, and all other loops go
over finite lists. A run in which no FFmpeg call fails returns 0.

## Main definitions

* `run_ne_hang` — termination.
* `Ffmpeg.Healthy`, `run_eq_ret` — runs in which no call fails.
* `run_blocks` — the chunks of a run that returns 0.
-/

namespace AudioCrash.Audio

open Segment

section run
variable {α : Type} (x : Context α)

/-! ## Termination -/

theorem push_ne_hang (f : AVFrame α) (s : State α) : push x f s ≠ Flow.hang := by
  simp only [push]
  split_ifs <;> simp

theorem receivePackets_ne_hang (code : ℤ) (s : State α) :
    receivePackets x code s ≠ Flow.hang := by
  refine Flow.forEach_ne_hang _ s fun pkt s => ?_
  simp only [receivePacket]
  split_ifs <;> simp

theorem sendChunk_ne_hang (fillCode sendCode : ℤ) (chunk : List (Sample α)) (s : State α) :
    sendChunk x fillCode sendCode chunk s ≠ Flow.hang := by
  simp only [sendChunk]
  split
  · simp
  · split_ifs <;> simp

/-- Every iteration of the drain loop takes samples out of the queue. -/
theorem drain_ne_hang (hF : 1 ≤ x.F) (s : State α) : drain x s ≠ Flow.hang := by
  refine Flow.whileLoop_ne_hang (fun s => s.fifo.length) ?body ?decreases _ s (Nat.lt_succ_self _)
  case body =>
    intro s _
    exact Flow.bind_ne_hang (sendChunk_ne_hang x _ _ _ _)
      fun s' _ => receivePackets_ne_hang x _ s'
  case decreases =>
    intro s s' hlt hs'
    have hlt : x.F < s.fifo.length := of_decide_eq_true hlt
    have hsent := drainStep_sent x s
    rw [hs', Flow.holds_next] at hsent
    rw [hsent.fifo, pull_fifo, List.length_drop]
    omega

theorem onPacket_ne_hang (hF : 1 ≤ x.F) (e : Event α) (s : State α) :
    onPacket x e s ≠ Flow.hang := by
  cases e with
  | other => simp [onPacket]
  | rejected => simp [onPacket]
  | accepted frames =>
    refine Flow.bind_ne_hang (Flow.bind_ne_hang ?_ fun s _ => ?_) fun s _ => by simp
    · exact Flow.forEach_ne_hang frames _ fun f s => push_ne_hang x f s
    · split_ifs
      · exact drain_ne_hang x hF s
      · simp

theorem finish_ne_hang (s : State α) : finish x s ≠ Flow.hang := by
  refine Flow.bind_ne_hang ?tail fun s _ => Flow.bind_ne_hang ?null fun s _ =>
    Flow.bind_ne_hang (receivePackets_ne_hang x _ s) fun s _ => ?trailer
  case tail =>
    split_ifs
    · exact sendChunk_ne_hang x _ _ _ _
    · simp
  case null => split_ifs <;> simp
  case trailer => split_ifs <;> simp

/-- **Every run ends.** -/
theorem run_ne_hang (hF : 1 ≤ x.F) (events : List (Event α)) (s : State α) :
    run x events s ≠ Flow.hang := by
  refine Flow.bind_ne_hang (Flow.forEach_ne_hang events s (onPacket_ne_hang x hF)) fun s _ =>
    Flow.bind_ne_hang ?_ fun s _ => finish_ne_hang x s
  split_ifs
  · simp
  · exact drain_ne_hang x hF s

/-! ## Runs in which no call fails -/

/-- No FFmpeg call fails. -/
structure Ffmpeg.Healthy (ffmpeg : Ffmpeg α) : Prop where
  convert : ∀ log, ffmpeg.convertOk log = true
  fill : ∀ log, ffmpeg.fillOk log = true
  sendFrame : ∀ log, ffmpeg.sendFrameOk log = true
  write : ∀ log, ffmpeg.writeOk log = true
  trailer : ∀ log, ffmpeg.trailerOk log = true

/-- A statement goes on, or returns 0. -/
def Succeeds : Step α → Prop := Flow.Holds (fun _ => True) fun r => r.1 = 0

section healthy
variable (hx : x.ffmpeg.Healthy)
include hx

theorem push_succeeds (f : AVFrame α) (s : State α) : Succeeds (push x f s) := by
  simp [push, hx.convert, Succeeds]

theorem sendChunk_succeeds (fillCode sendCode : ℤ) (s : State α) :
    Succeeds (sendChunk x fillCode sendCode (pull x s).1 (pull x s).2) := by
  have hsize : ¬ bufferSize x.C x.F < bufferSize x.C (pull x s).1.length :=
    not_lt.2 (bufferSize_mono x.C (pull_loaded x s).length_le)
  simp only [sendChunk, fillAudioFrame, if_neg hsize, hx.fill, hx.sendFrame, if_true]
  trivial

theorem receivePackets_succeeds (code : ℤ) (s : State α) :
    Succeeds (receivePackets x code s) := by
  refine Flow.holds_forEach_const _ trivial fun pkt s _ => ?_
  simp only [receivePacket, hx.write, if_true]
  split_ifs <;> trivial

theorem drain_succeeds (s : State α) : Succeeds (drain x s) := by
  refine (drain_of_step (D := fun _ => True) ?_ trivial).imp_next fun _ _ => trivial
  intro s _ _
  exact (sendChunk_succeeds x hx _ _ s).bind fun s _ => receivePackets_succeeds x hx _ s

theorem onPacket_succeeds (e : Event α) (s : State α) : Succeeds (onPacket x e s) := by
  cases e with
  | other => trivial
  | rejected => trivial
  | accepted frames =>
    refine Flow.Holds.bind (P := fun _ => True)
      (Flow.Holds.bind (P := fun _ => True) ?_ fun s _ => ?_) fun s _ => trivial
    · exact Flow.holds_forEach_const frames trivial fun f s _ => push_succeeds x hx f s
    · split_ifs
      · exact drain_succeeds x hx s
      · trivial

theorem finish_succeeds (s : State α) : Succeeds (finish x s) := by
  refine Flow.Holds.bind (P := fun _ => True) ?tail fun s _ =>
    Flow.Holds.bind (P := fun _ => True) ?null fun s _ =>
    (receivePackets_succeeds x hx _ s).bind fun s _ => ?trailer
  case tail =>
    split_ifs
    · exact sendChunk_succeeds x hx _ _ _
    · trivial
  case null =>
    rw [if_pos (hx.sendFrame _)]
    trivial
  case trailer =>
    rw [if_pos (hx.trailer _)]
    rfl

/-- **A run in which no call fails returns 0.** -/
theorem run_eq_ret (hF : 1 ≤ x.F) (events : List (Event α)) (mem : ℤ → α) (handle : ℕ → ℤ) :
    ∃ s, run x events (State.init x mem handle) = Flow.ret (0, s) := by
  have hdone := run_done x events mem handle
  have hends := run_ne_hang x hF events (State.init x mem handle)
  have hzero : Succeeds (run x events (State.init x mem handle)) := by
    refine Flow.Holds.bind (P := fun _ => True) ?_ fun s _ =>
      Flow.Holds.bind (P := fun _ => True) ?_ fun s _ => finish_succeeds x hx s
    · exact Flow.holds_forEach_const events trivial fun e s _ => onPacket_succeeds x hx e s
    · split_ifs
      · trivial
      · exact drain_succeeds x hx s
  rcases hdone.exists_ret hends with ⟨r, hrun, -⟩
  rw [hrun] at hzero
  exact ⟨r.2, by rw [hrun, ← (show r.1 = 0 from hzero)]⟩

end healthy

/-- **The chunks of a run that returns 0 are the blocks of what was pushed**, whichever of
the two loop structures hands them over; and every run ends. -/
theorem run_blocks (hF : 1 ≤ x.F) (events : List (Event α)) (mem : ℤ → α)
    (handle : ℕ → ℤ) :
    run x events (State.init x mem handle) ≠ Flow.hang ∧
    ∀ s, run x events (State.init x mem handle) = Flow.ret (0, s) →
      pushed s.log = (x.stream handle (allFrames events)).2 ∧
      Blocks x.F (pushed s.log) (chunks s.log) ∧ s.fifo = [] ∧
      (pushed s.log = [] → chunks s.log = []) ∧ (∀ h ∈ handed s.log, Fits x h) ∧
      ∀ (y : Context α) (events' : List (Event α)) (mem' : ℤ → α) (handle' : ℕ → ℤ) s',
        y.F = x.F → run y events' (State.init y mem' handle') = Flow.ret (0, s') →
        pushed s'.log = pushed s.log → chunks s'.log = chunks s.log := by
  have hresult : ∀ (y : Context α) (events' : List (Event α)) (mem' : ℤ → α)
      (handle' : ℕ → ℤ) s', run y events' (State.init y mem' handle') = Flow.ret (0, s') →
      Done y (y.stream handle' (allFrames events')).2 (0, s') := by
    intro y events' mem' handle' s' hs'
    have hdone := run_done y events' mem' handle'
    rwa [hs', Flow.holds_ret] at hdone
  refine ⟨run_ne_hang x hF events _, ?_⟩
  intro s hs
  have hdone := hresult x events mem handle s hs
  rcases hdone.complete rfl with ⟨hpushed, hblocks, hfifo⟩
  rw [← hpushed] at hblocks
  refine ⟨hpushed, hblocks, hfifo, ?_, hdone.fits, ?_⟩
  · intro hnil
    rw [hnil] at hblocks
    exact hblocks.eq_nil
  · intro y events' mem' handle' s' hyF hs' hsame
    rcases (hresult y events' mem' handle' s' hs').complete rfl with ⟨hpushed', hblocks', _⟩
    rw [← hpushed', hsame, hyF] at hblocks'
    exact hblocks'.unique hblocks

end run

/-- Mono, blocks of two samples, and FFmpeg calls that do not fail. -/
def monoContext : Context ℤ where
  pipeline := audioConvert
  ffmpeg :=
    { convertOk := fun _ => true
      fillOk := fun _ => true
      sendFrameOk := fun _ => true
      packets := fun _ => []
      rescaleTs := id
      writeOk := fun _ => true
      trailerOk := fun _ => true }
  fmt := .fltp
  C := 1
  streamIndex := 0
  F := 2

theorem monoContext_healthy : monoContext.ffmpeg.Healthy := by
  constructor <;> intro log <;> rfl

/-- One packet with three samples: two chunks. -/
theorem run_blocks_mono :
    ∃ s, run monoContext [.accepted [⟨3, fun _ => 0, id⟩]]
        (State.init monoContext (fun _ => 0) fun _ => 0) = Flow.ret (0, s) ∧
      (pushed s.log).length = 3 ∧ Blocks 2 (pushed s.log) (chunks s.log) := by
  rcases run_eq_ret monoContext monoContext_healthy (by decide) [.accepted [⟨3, fun _ => 0, id⟩]]
    (fun _ => 0) (fun _ => 0) with ⟨s, hs⟩
  have hblocks := (run_blocks monoContext (by decide) [.accepted [⟨3, fun _ => 0, id⟩]]
    (fun _ => 0) (fun _ => 0)).2 s hs
  refine ⟨s, hs, ?_, hblocks.2.1⟩
  rw [hblocks.1]
  rfl

end AudioCrash.Audio
