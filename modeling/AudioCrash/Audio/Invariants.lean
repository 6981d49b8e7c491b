import AudioCrash.Audio.Chunks

/-!
# Invariants of a run

What every statement of `run` keeps holds whenever a run is left. The statements are those that
the loops are made of: a push, a block that is pulled, scaled and handed over, a packet of the
encoder, and the calls in between. A first use is that nothing outside of the chunk buffer is
written, and nothing outside of it is read by the encoder.

## Main definitions

* `Invariant`, `Invariant.run` — the rule.
* `InBounds`, `Confined`, `run_confined` — the memory around the chunk buffer.
-/

namespace AudioCrash.Audio

open Grid

section run
variable {α : Type} (x : Context α)

/-! ## The rule -/

/-- The statements of `run` keep a property, whether they go on or leave the function. -/
structure Invariant (P : State α → Prop) : Prop where
  readFrame : ∀ s, P s → P (s.call .readFrame)
  unref : ∀ s, P s → P (s.call .unref)
  push : ∀ f s, P s → Flow.Holds P (fun r => P r.2) (push x f s)
  pull : ∀ s, P s → P (pull x s).2
  sendChunk : ∀ fillCode sendCode s, P s → Flow.Holds P (fun r => P r.2)
    (sendChunk x fillCode sendCode (Audio.pull x s).1 (Audio.pull x s).2)
  receivePacket : ∀ code pkt s, P s → Flow.Holds P (fun r => P r.2) (receivePacket x code pkt s)
  sendNull : ∀ s, P s → P (s.call .sendNull)
  writeTrailer : ∀ s, P s → P (s.call .writeTrailer)

variable {x} {P : State α → Prop} {s : State α}

theorem Invariant.receivePackets (h : Invariant x P) (code : ℤ) (hs : P s) :
    Flow.Holds P (fun r => P r.2) (receivePackets x code s) :=
  Flow.holds_forEach_const _ hs fun pkt s hs => h.receivePacket code pkt s hs

theorem Invariant.drain (h : Invariant x P) (hs : P s) :
    Flow.Holds P (fun r => P r.2) (drain x s) := by
  refine (drain_of_step (fun s _ hs => ?_) hs).imp_next fun _ hs => hs.1
  exact (h.sendChunk _ _ s hs).bind fun s hs => h.receivePackets _ hs

theorem Invariant.onPacket (h : Invariant x P) (event : Event α) (hs : P s) :
    Flow.Holds P (fun r => P r.2) (onPacket x event s) := by
  have hread := h.readFrame s hs
  cases event with
  | other => exact h.unref _ hread
  | rejected => exact h.unref _ hread
  | accepted frames =>
    have hpush := Flow.holds_forEach_const frames hread fun f s hs => h.push f s hs
    refine (hpush.bind fun s hs => ?_).bind fun s hs => h.unref s hs
    split_ifs
    · exact h.drain hs
    · exact hs

theorem Invariant.finish (h : Invariant x P) (hs : P s) :
    Flow.Holds (fun _ => False) (fun r => P r.2) (finish x s) := by
  refine Flow.Holds.bind (P := P) ?tail fun s hs => Flow.Holds.bind (P := P) ?null fun s hs =>
    (h.receivePackets _ hs).bind fun s hs => ?trailer
  case tail =>
    split_ifs
    · exact h.sendChunk _ _ s hs
    · exact h.pull s hs
  case null =>
    split_ifs
    · exact h.sendNull s hs
    · exact h.sendNull s hs
  case trailer =>
    split_ifs
    · exact h.writeTrailer s hs
    · exact h.writeTrailer s hs

/-- **What every statement keeps holds of every run.** -/
theorem Invariant.run (h : Invariant x P) (events : List (Event α)) (hs : P s) :
    Flow.Holds (fun _ => False) (fun r => P r.2) (run x events s) := by
  have hloop := Flow.holds_forEach_const events hs fun event s hs => h.onPacket event hs
  refine hloop.bind fun s hs => Flow.Holds.bind (P := P) ?_ fun s hs => h.finish hs
  split_ifs
  · exact hs
  · exact h.drain hs

/-! ## The memory around the chunk buffer -/

/-- The four bytes at an address lie in a buffer of `C` planes of `F` floats. -/
def InBounds (C F : ℕ) (a : ℤ) : Prop := 0 ≤ a ∧ a + 4 ≤ bufferSize C F

/-- A plane of `n` floats lies inside of a buffer for more of them. -/
theorem inBounds_planeAt {C F n p i : ℕ} (hp : p < C) (hi : i < n) (hn : n ≤ F) :
    InBounds C F (pcm (planeAt n) p i) := by
  have hcell : (p * align32 n + i : ℕ) + 1 ≤ C * align32 F := by
    have hrow : (p + 1) * align32 n ≤ C * align32 F := Nat.mul_le_mul hp (align32_mono hn)
    have hle := le_align32 n
    rw [Nat.succ_mul] at hrow
    omega
  have hcell' : ((p * align32 n + i : ℕ) : ℤ) + 1 ≤ (C * align32 F : ℕ) := by exact_mod_cast hcell
  have haddr : pcm (planeAt n) p i = 4 * ((p * align32 n + i : ℕ) : ℤ) := by
    simp only [pcm, planeAt]
    push_cast
    ring
  have hsize : (bufferSize C F : ℤ) = 4 * ((C * align32 F : ℕ) : ℤ) := by
    simp only [bufferSize]
    push_cast
    ring
  rw [InBounds, haddr, hsize]
  constructor <;> omega

/-- Outside of the chunk buffer the memory is as before, and so it is whenever a frame is handed
to the encoder; all that the encoder is told to read lies inside. -/
structure Confined (x : Context α) (mem : ℤ → α) (s : State α) : Prop where
  outside : ∀ a, ¬ InBounds x.C x.F a → s.mem a = mem a
  handed : ∀ h ∈ handed s.log, (∀ a, ¬ InBounds x.C x.F a → h.2.mem a = mem a) ∧
    ∀ p < x.C, ∀ i < h.2.nbSamples, InBounds x.C x.F (pcm h.2.data p i)

variable {mem : ℤ → α}

theorem Confined.quiet {s' : State α} (h : Confined x mem s) (hm : s'.mem = s.mem)
    (hh : Audio.handed s'.log = Audio.handed s.log) : Confined x mem s' := by
  refine ⟨?_, ?_⟩
  · rw [hm]
    exact h.outside
  · rw [hh]
    exact h.handed

/-- An address outside of the buffer is none of the cells of a block. -/
theorem ne_cell {C F n : ℕ} {a : ℤ} (ha : ¬ InBounds C F a) (hn : n ≤ F) :
    ∀ p < C, ∀ i < n, a ≠ pcm (planeAt F) p i := by
  rintro p hp i hi rfl
  exact ha (inBounds_planeAt hp (lt_of_lt_of_le hi hn) le_rfl)

theorem Confined.pull (h : Confined x mem s) : Confined x mem (pull x s).2 := by
  refine ⟨?_, ?_⟩
  · intro a ha
    have hle : (s.fifo.take x.F).length ≤ x.F := List.length_take_le _ _
    exact (updateGrid_other _ _ _ _ _ (ne_cell ha hle)).trans (h.outside a ha)
  · rw [pull_handed]
    exact h.handed

theorem Confined.sendChunk (h : Confined x mem s) (fillCode sendCode : ℤ) :
    Flow.Holds (Confined x mem) (fun r => Confined x mem r.2)
      (sendChunk x fillCode sendCode (Audio.pull x s).1 (Audio.pull x s).2) := by
  have hpull := h.pull
  have hle := (pull_loaded x s).length_le
  have htuned : ∀ a, ¬ InBounds x.C x.F a →
      (tuned x (Audio.pull x s).1 (Audio.pull x s).2).mem a = mem a := by
    intro a ha
    exact (x.pipeline.tune_other _ _ (ne_cell ha hle)).trans (hpull.outside a ha)
  have hsent : Confined x mem (handedOver x (Audio.pull x s).1 (Audio.pull x s).2) := by
    refine ⟨htuned, ?_⟩
    intro c hc
    rw [handed_handedOver, List.mem_append, List.mem_singleton] at hc
    rcases hc with hc | rfl
    · exact hpull.handed c hc
    · exact ⟨htuned, fun p hp i hi => inBounds_planeAt hp hi hle⟩
  exact sendChunk_holds ⟨htuned, hpull.handed⟩ hsent hsent

theorem confined_invariant (x : Context α) (mem : ℤ → α) : Invariant x (Confined x mem) where
  readFrame s hs := hs.quiet rfl (handed_quiet rfl s.log)
  unref s hs := hs.quiet rfl (handed_quiet rfl s.log)
  push f s hs := by
    simp only [push]
    split_ifs
    · exact hs.quiet rfl (handed_push s.log _)
    · exact hs.quiet rfl rfl
  pull s hs := hs.pull
  sendChunk fillCode sendCode s hs := hs.sendChunk fillCode sendCode
  receivePacket code pkt s hs :=
    (receivePacket_quiet x code pkt s).imp (fun _ hq => hs.quiet hq.mem hq.handed)
      fun _ hq => hs.quiet hq.2.mem hq.2.handed
  sendNull s hs := hs.quiet rfl (handed_quiet rfl s.log)
  writeTrailer s hs := hs.quiet rfl (handed_quiet rfl s.log)

/-- **No run writes outside of the chunk buffer**, and none makes the encoder read outside of
it. -/
theorem run_confined (x : Context α) (events : List (Event α)) (mem : ℤ → α) (handle : ℕ → ℤ) :
    Flow.Holds (fun _ => False) (fun r => Confined x mem r.2)
      (run x events (State.init x mem handle)) :=
  (confined_invariant x mem).run events ⟨fun _ _ => rfl, fun _ hc => absurd hc List.not_mem_nil⟩

end run
end AudioCrash.Audio
