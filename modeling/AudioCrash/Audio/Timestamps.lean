import AudioCrash.Audio.Encoding
import AudioCrash.Audio.Invariants
import AudioCrash.Time.Rescale
import Mathlib.Algebra.Order.BigOperators.Group.List

/-!
# The time stamps that are written

The programs never set `encode_frame->pts`, so that the packets of the encoder have no time
stamps, and rescaling leaves them without. The muxer makes stamps up for them: it counts the
ticks that the packets have taken so far, with a fraction, so that every stamp is rounded on its
own and the error does not add up. Where every packet takes at least a tick, the stamps increase,
and the muxer refuses none of the packets that it is handed.

## Main definitions

* `avPacketRescaleTs`, `computeMuxerPktFields` — the functions.
* `FFFrac`, `Counts` — the fraction, and what it counts.
* `run_dropsFirst` — what every run has written, also one that fails.
* `StampedAt`, `run_timestamps` — the stamps of every run.
-/

namespace AudioCrash.Audio

open Time

/-! ## The functions -/

/-- `AV_NOPTS_VALUE`. -/
def noPts : ℤ := int64Min

/-- `av_packet_rescale_ts`. -/
def avPacketRescaleTs (src dst : AVRational) (pkt : Packet) : Packet :=
  { pkt with
    pts := if pkt.pts ≠ noPts then avRescaleQ pkt.pts src dst else pkt.pts
    dts := if pkt.dts ≠ noPts then avRescaleQ pkt.dts src dst else pkt.dts
    duration := if 0 < pkt.duration then avRescaleQ pkt.duration src dst else pkt.duration }

/-- A 64-bit integer. -/
def wrap64 (n : ℤ) : ℤ := n.bmod (2 ^ 64)

/-- `FFFrac`: `val` and the fraction `num / den`, of which a half is to be taken away. -/
structure FFFrac where
  val : ℤ
  num : ℤ
  den : ℤ
  deriving DecidableEq, Repr

/-- `frac_init`. -/
def fracInit (val num den : ℤ) : FFFrac :=
  let num := wrap64 (num + den / 2)
  if den ≤ num then ⟨wrap64 (val + num.tdiv den), num.tmod den, den⟩ else ⟨val, num, den⟩

/-- `frac_add`. -/
def fracAdd (f : FFFrac) (incr : ℤ) : FFFrac :=
  let num := wrap64 (f.num + incr)
  if num < 0 then
    let val := wrap64 (f.val + num.tdiv f.den)
    let num := num.tmod f.den
    if num < 0 then ⟨wrap64 (val - 1), num + f.den, f.den⟩ else ⟨val, num, f.den⟩
  else if f.den ≤ num then ⟨wrap64 (f.val + num.tdiv f.den), num.tmod f.den, f.den⟩
  else ⟨f.val, num, f.den⟩

/-- What the muxer knows of its audio stream. -/
structure Muxer where
  /-- `st->time_base`. -/
  timeBase : AVRational
  /-- `st->codecpar->sample_rate`. -/
  sampleRate : ℤ
  /-- `pkt->size`, for a payload. -/
  size : ℕ → ℕ
  /-- `av_get_audio_frame_duration2(st->codecpar, size)`. -/
  frameDuration : ℕ → ℤ

/-- The variables that the muxer makes stamps up from. -/
structure MuxState where
  /-- `st->cur_dts`. -/
  curDts : ℤ
  /-- `st->internal->priv_pts`. -/
  privPts : FFFrac
  deriving DecidableEq, Repr

/-- `avformat_new_stream` and `init_pts`. -/
def Muxer.init (m : Muxer) : MuxState := ⟨noPts, fracInit 0 0 (m.timeBase.num * m.sampleRate)⟩

/-- `compute_muxer_pkt_fields` for a packet of an audio stream, which is without a delay, in a
format that wants the `dts` to increase: none if the packet is refused. -/
def computeMuxerPktFields (m : Muxer) (s : MuxState) (pkt : Packet) :
    Option (Packet × MuxState) :=
  let pkt := if pkt.pts = noPts ∧ pkt.dts ≠ noPts then { pkt with pts := pkt.dts } else pkt
  let pkt :=
    if (pkt.pts = 0 ∨ pkt.pts = noPts) ∧ pkt.dts = noPts then
      { pkt with pts := s.privPts.val, dts := s.privPts.val }
    else pkt
  let pkt := if pkt.pts ≠ noPts ∧ pkt.dts = noPts then { pkt with dts := pkt.pts } else pkt
  if s.curDts ≠ 0 ∧ s.curDts ≠ noPts ∧ pkt.dts ≤ s.curDts then none
  else if pkt.dts ≠ noPts ∧ pkt.pts ≠ noPts ∧ pkt.pts < pkt.dts then none
  else
    let frac := { s.privPts with val := pkt.dts }
    let size := m.size pkt.payload
    let frameSize := m.frameDuration size
    -- packets without content at the start are taken for the delay of the encoder
    let frac :=
      if 0 ≤ frameSize ∧ (size ≠ 0 ∨ frac.num ≠ frac.den / 2 ∨ frac.val ≠ 0) then
        fracAdd frac (m.timeBase.den * frameSize)
      else frac
    some (pkt, ⟨pkt.dts, frac⟩)

/-- One packet after the other: none if one is refused, else the packets as they are stamped. -/
def Muxer.writeAll (m : Muxer) : MuxState → List Packet → Option (List Packet)
  | _, [] => some []
  | s, pkt :: pkts => do
    let (pkt, s) ← computeMuxerPktFields m s pkt
    let pkts ← m.writeAll s pkts
    return pkt :: pkts

/-! ## Counting with a fraction -/

/-- `f` has counted `total`, of which `den` make one, and a half of one. -/
structure Counts (f : FFFrac) (den total : ℤ) : Prop where
  den_eq : f.den = den
  nonneg : 0 ≤ f.num
  lt : f.num < den
  sum : f.val * den + f.num = den / 2 + total

theorem wrap64_of_range {n : ℤ} (h0 : 0 ≤ n) (h : n ≤ int64Max) : wrap64 n = n := by
  have hmax : int64Max = 2 ^ 63 - 1 := rfl
  rw [wrap64, Int.bmod_eq_of_le] <;> omega

section counts
variable {f : FFFrac} {den total incr : ℤ}

theorem fracInit_counts (hden : 0 < den) (hmax : den ≤ int64Max) :
    Counts (fracInit 0 0 den) den 0 := by
  have hwrap : wrap64 (0 + den / 2) = den / 2 := by
    rw [zero_add]
    exact wrap64_of_range (by omega) (by omega)
  simp only [fracInit, hwrap]
  rw [if_neg (by omega)]
  have hnonneg : 0 ≤ den / 2 := by omega
  have hlt : den / 2 < den := by omega
  exact ⟨rfl, hnonneg, hlt, by simp⟩

/-- What has been counted, in whole ones. -/
theorem Counts.val_eq (h : Counts f den total) : f.val = (den / 2 + total) / den := by
  have hpos : 0 < den := lt_of_le_of_lt h.nonneg h.lt
  exact ((Int.ediv_emod_unique hpos).2 ⟨by rw [← h.sum]; ring, h.nonneg, h.lt⟩).1.symm

/-- **Counting on.** -/
theorem Counts.add (h : Counts f den total) (hincr : 0 ≤ incr) (hnum : den + incr ≤ int64Max)
    (htotal : 0 ≤ total) (hval : (den / 2 + (total + incr)) / den ≤ int64Max) :
    Counts (fracAdd f incr) den (total + incr) := by
  have hpos : 0 < den := lt_of_le_of_lt h.nonneg h.lt
  have hwrap : wrap64 (f.num + incr) = f.num + incr :=
    wrap64_of_range (by have := h.nonneg; omega) (by have := h.lt; omega)
  have hnonneg : 0 ≤ f.num + incr := by have := h.nonneg; omega
  simp only [fracAdd, hwrap, h.den_eq, if_neg (not_lt.2 hnonneg)]
  split_ifs with hle
  · rw [Int.tdiv_eq_ediv_of_nonneg hnonneg, Int.tmod_eq_emod_of_nonneg hnonneg]
    have hsplit := Int.mul_ediv_add_emod (f.num + incr) den
    have hsum : (f.val + (f.num + incr) / den) * den + (f.num + incr) % den =
        den / 2 + (total + incr) := by
      have hold := h.sum
      linarith
    have hquot : f.val + (f.num + incr) / den = (den / 2 + (total + incr)) / den :=
      ((Int.ediv_emod_unique hpos).2 ⟨by rw [← hsum]; ring, Int.emod_nonneg _ hpos.ne',
        Int.emod_lt_of_pos _ hpos⟩).1.symm
    have hrange : wrap64 (f.val + (f.num + incr) / den) = f.val + (f.num + incr) / den := by
      refine wrap64_of_range ?_ (hquot.trans_le hval)
      rw [hquot]
      exact Int.ediv_nonneg (by omega) hpos.le
    rw [hrange]
    exact ⟨rfl, Int.emod_nonneg _ hpos.ne', Int.emod_lt_of_pos _ hpos, hsum⟩
  · exact ⟨rfl, hnonneg, not_le.1 hle, by have := h.sum; linarith⟩

end counts

/-! ## The muxer -/

/-- The length of a tick. -/
def tick (tb : AVRational) : ℚ := tb.num / tb.den

namespace Muxer
variable (m : Muxer)

/-- The samples of a packet. -/
def samples (pkt : Packet) : ℤ := m.frameDuration (m.size pkt.payload)

/-- The time of so many samples, in ticks. -/
def ticks (n : ℤ) : ℚ := n / m.sampleRate / tick m.timeBase

/-- The packets after `n` samples: the stamp of each is the time of the samples before it, to the
nearest tick. -/
def stamped : ℤ → List Packet → List Packet
  | _, [] => []
  | n, pkt :: pkts =>
    { pkt with
      pts := Rounding.nearInf.apply (m.ticks n)
      dts := Rounding.nearInf.apply (m.ticks n) } :: stamped (n + m.samples pkt) pkts

/-- The terms of the time base and the sample rate are positive `int`s. -/
structure IsAudio : Prop where
  num_pos : 0 < m.timeBase.num
  num_le : m.timeBase.num ≤ intMax
  den_pos : 0 < m.timeBase.den
  den_le : m.timeBase.den ≤ intMax
  rate_pos : 0 < m.sampleRate
  rate_le : m.sampleRate ≤ intMax

/-- A packet of the encoder: it has no time stamps, and takes at least a tick. -/
structure Unstamped (pkt : Packet) : Prop where
  pts : pkt.pts = noPts
  dts : pkt.dts = noPts
  size : m.size pkt.payload ≠ 0
  le : m.samples pkt ≤ intMax
  tick_le : tick m.timeBase ≤ m.samples pkt / m.sampleRate

end Muxer

section muxer
variable {m : Muxer} {s : MuxState} {pkt : Packet} {n : ℤ}

theorem mul_le_int64Max {a b : ℤ} (ha : 0 < a) (ha' : a ≤ intMax) (hb : b ≤ intMax) :
    a * b ≤ int64Max / 2 := by
  have hproduct : a * b ≤ intMax * intMax :=
    (mul_le_mul_of_nonneg_left hb ha.le).trans (mul_le_mul_of_nonneg_right ha' (by decide))
  exact hproduct.trans (by decide)

theorem Muxer.ticks_eq (hm : m.IsAudio) (n : ℤ) :
    m.ticks n = (m.timeBase.den * n : ℤ) / (m.timeBase.num * m.sampleRate : ℤ) := by
  have hnum : (m.timeBase.num : ℚ) ≠ 0 := by exact_mod_cast hm.num_pos.ne'
  have hden : (m.timeBase.den : ℚ) ≠ 0 := by exact_mod_cast hm.den_pos.ne'
  have hrate : (m.sampleRate : ℚ) ≠ 0 := by exact_mod_cast hm.rate_pos.ne'
  push_cast [Muxer.ticks, tick]
  field_simp

/-- A packet takes at least a tick. -/
theorem Muxer.Unstamped.den_le (h : m.Unstamped pkt) (hm : m.IsAudio) :
    m.timeBase.num * m.sampleRate ≤ m.timeBase.den * m.samples pkt := by
  have hden : (0 : ℚ) < m.timeBase.den := by exact_mod_cast hm.den_pos
  have hrate : (0 : ℚ) < m.sampleRate := by exact_mod_cast hm.rate_pos
  have hle := h.tick_le
  rw [tick, div_le_div_iff₀ hden hrate] at hle
  rw [mul_comm m.timeBase.den]
  exact_mod_cast hle

/-- **What has been counted is the nearest tick.** -/
theorem Counts.val_eq_apply (hm : m.IsAudio)
    (h : Counts s.privPts (m.timeBase.num * m.sampleRate) (m.timeBase.den * n)) (hn : 0 ≤ n) :
    s.privPts.val = Rounding.nearInf.apply (m.ticks n) := by
  have hc : 0 < m.timeBase.num * m.sampleRate := mul_pos hm.num_pos hm.rate_pos
  have ht : 0 ≤ m.timeBase.den * n := mul_nonneg hm.den_pos.le hn
  rw [h.val_eq, Muxer.ticks_eq hm]
  generalize m.timeBase.num * m.sampleRate = c at hc
  generalize m.timeBase.den * n = t at ht
  lift c to ℕ using hc.le
  lift t to ℕ using ht
  rw [Int.cast_natCast, Int.cast_natCast, Rounding.apply_div _ (by exact_mod_cast hc)]
  simp only [Rounding.bias, Nat.add_comm t]
  push_cast
  rfl

theorem Counts.val_nonneg (hm : m.IsAudio)
    (h : Counts s.privPts (m.timeBase.num * m.sampleRate) (m.timeBase.den * n)) (hn : 0 ≤ n) :
    0 ≤ s.privPts.val := by
  have hden : 0 < m.timeBase.num * m.sampleRate := mul_pos hm.num_pos hm.rate_pos
  rw [h.val_eq]
  exact Int.ediv_nonneg (add_nonneg (by omega) (mul_nonneg hm.den_pos.le hn)) hden.le

/-- A packet without time stamps is stamped with what has been counted. -/
theorem computeMuxerPktFields_of_unstamped (h : m.Unstamped pkt) (h0 : 0 ≤ m.samples pkt)
    (hval : s.privPts.val ≠ noPts) (hcur : s.curDts = noPts ∨ s.curDts < s.privPts.val) :
    computeMuxerPktFields m s pkt =
      some ({ pkt with pts := s.privPts.val, dts := s.privPts.val },
        ⟨s.privPts.val, fracAdd s.privPts (m.timeBase.den * m.samples pkt)⟩) := by
  have hdecreases : ¬ (s.curDts ≠ 0 ∧ s.curDts ≠ noPts ∧ s.privPts.val ≤ s.curDts) := by
    rintro ⟨-, hne, hle⟩
    rcases hcur with heq | hlt
    · exact hne heq
    · omega
  have hframe : 0 ≤ m.frameDuration (m.size pkt.payload) := h0
  simp [computeMuxerPktFields, h.pts, h.dts, hval, hdecreases, hframe, h.size, Muxer.samples]

/-- A packet that takes at least a tick leads to the next tick. -/
theorem Counts.val_lt {f f' : FFFrac} {den total incr : ℤ} (h : Counts f den total)
    (h' : Counts f' den (total + incr)) (hle : den ≤ incr) : f.val < f'.val := by
  have hpos : 0 < den := lt_of_le_of_lt h.nonneg h.lt
  have hnext : (den / 2 + total + den) / den = (den / 2 + total) / den + 1 :=
    Int.add_ediv_of_dvd_right (dvd_refl den) |>.trans (by rw [Int.ediv_self hpos.ne'])
  have hmono : (den / 2 + total + den) / den ≤ (den / 2 + (total + incr)) / den :=
    Int.ediv_le_ediv hpos (by omega)
  rw [h.val_eq, h'.val_eq]
  omega

theorem Muxer.Unstamped.samples_pos (h : m.Unstamped pkt) (hm : m.IsAudio) :
    0 < m.samples pkt :=
  pos_of_mul_pos_right ((mul_pos hm.num_pos hm.rate_pos).trans_le (h.den_le hm)) hm.den_pos.le

/-- Counting the samples of a packet. -/
theorem Counts.packet (hm : m.IsAudio) (hpkt : m.Unstamped pkt) (hn : 0 ≤ n)
    (h : Counts s.privPts (m.timeBase.num * m.sampleRate) (m.timeBase.den * n))
    (hrange : m.timeBase.den * (n + m.samples pkt) + m.timeBase.num * m.sampleRate ≤
      int64Max * (m.timeBase.num * m.sampleRate)) :
    Counts (fracAdd s.privPts (m.timeBase.den * m.samples pkt))
      (m.timeBase.num * m.sampleRate) (m.timeBase.den * (n + m.samples pkt)) := by
  have hden : 0 < m.timeBase.num * m.sampleRate := mul_pos hm.num_pos hm.rate_pos
  have hleft := mul_le_int64Max hm.num_pos hm.num_le hm.rate_le
  have hright := mul_le_int64Max hm.den_pos hm.den_le hpkt.le
  rw [mul_add] at hrange ⊢
  refine h.add (mul_nonneg hm.den_pos.le (hpkt.samples_pos hm).le) (by omega)
    (mul_nonneg hm.den_pos.le hn) ?_
  exact Int.ediv_le_of_le_mul hden (by omega)

/-- **The muxer takes all packets**, and stamps them. -/
theorem writeAll_eq (hm : m.IsAudio) (pkts : List Packet) (hpkts : ∀ p ∈ pkts, m.Unstamped p)
    (hn : 0 ≤ n)
    (hcounts : Counts s.privPts (m.timeBase.num * m.sampleRate) (m.timeBase.den * n))
    (hcur : s.curDts = noPts ∨ s.curDts < s.privPts.val)
    (hrange : m.timeBase.den * (n + (pkts.map m.samples).sum) + m.timeBase.num * m.sampleRate ≤
      int64Max * (m.timeBase.num * m.sampleRate)) :
    m.writeAll s pkts = some (m.stamped n pkts) := by
  induction pkts generalizing s n with
  | nil => rfl
  | cons pkt pkts ih =>
    have hpkt := hpkts pkt List.mem_cons_self
    have hrest : ∀ p ∈ pkts, m.Unstamped p := fun p hp => hpkts p (List.mem_cons_of_mem _ hp)
    have hpos := hpkt.samples_pos hm
    rw [List.map_cons, List.sum_cons, ← add_assoc] at hrange
    have hsum : 0 ≤ (pkts.map m.samples).sum := List.sum_nonneg fun k hk => by
      rcases List.mem_map.1 hk with ⟨p, hp, rfl⟩
      exact ((hrest p hp).samples_pos hm).le
    have hnext := hcounts.packet hm hpkt hn (by
      have hmore := mul_le_mul_of_nonneg_left (le_add_of_nonneg_right (a := n + m.samples pkt) hsum)
        hm.den_pos.le
      omega)
    have hlt : s.privPts.val < (fracAdd s.privPts (m.timeBase.den * m.samples pkt)).val :=
      hcounts.val_lt (by rw [← mul_add]; exact hnext) (hpkt.den_le hm)
    have hset : s.privPts.val ≠ noPts := (lt_of_lt_of_le (by decide) (hcounts.val_nonneg hm hn)).ne'
    rw [Muxer.writeAll, computeMuxerPktFields_of_unstamped hpkt hpos.le hset hcur, Muxer.stamped,
      ← hcounts.val_eq_apply hm hn]
    have hwrite := ih (s := ⟨s.privPts.val, fracAdd s.privPts (m.timeBase.den * m.samples pkt)⟩)
      hrest (add_nonneg hn hpos.le) hnext (Or.inr hlt) hrange
    simp only [Option.bind_eq_bind, Option.bind_some, hwrite]
    rfl

end muxer

/-! ## What every run has written -/

section run
variable {α : Type} {x : Context α} {s s' : State α}

theorem DropsFirst.unsent (h : DropsFirst x s) (hu : Unsent s s') : DropsFirst x s' where
  drop := by rw [hu.drop, hu.received, h.drop]
  written := by rw [hu.written, hu.received, h.written]

theorem DropsFirst.call {c : Call α} (h : DropsFirst x s)
    (hr : Audio.received (s.log ++ [c]) = Audio.received s.log)
    (hw : Audio.written (s.log ++ [c]) = Audio.written s.log) :
    DropsFirst x (s.call c) where
  drop := by rw [State.call_drop, State.call_log, hr, h.drop]
  written := by rw [State.call_log, hr, hw, h.written]

/-- A statement goes on or leaves the function with all packets written but the first. -/
def Writes (x : Context α) : Step α → Prop :=
  Flow.Holds (DropsFirst x) fun r => DropsFirst x r.2

theorem receivePacket_writes (code : ℤ) (pkt : Packet) (h : DropsFirst x s) :
    Writes x (receivePacket x code pkt s) := by
  have hdrop := h.drop
  have hwritten := h.written
  cases hreceived : received s.log with
  | nil =>
    rw [hreceived, List.isEmpty_nil] at hdrop
    rw [hreceived, List.tail_nil, List.map_nil] at hwritten
    simp only [receivePacket, State.call_drop, hdrop, Bool.not_true, Bool.false_eq_true, if_false]
    exact ⟨by simp [hreceived], by simp [hreceived, hwritten]⟩
  | cons first rest =>
    rw [hreceived, List.isEmpty_cons] at hdrop
    rw [hreceived, List.tail_cons] at hwritten
    -- whether or not the muxer takes the packet, it has been handed over
    have hwrite : DropsFirst x ((s.call (.receivePacket pkt)).call (.writeFrame (x.stamp pkt))) :=
      ⟨by simp only [State.call_drop, State.call_log, received_writeFrame, received_receivePacket,
          hreceived, hdrop, List.cons_append, List.isEmpty_cons],
        by simp only [State.call_log, received_writeFrame, received_receivePacket,
          written_writeFrame, written_receivePacket, hreceived, hwritten, List.cons_append,
          List.tail_cons, List.map_append, List.map_cons, List.map_nil]⟩
    simp only [receivePacket, State.call_drop, hdrop, Bool.not_false, if_true]
    split_ifs
    · exact hwrite
    · exact hwrite

theorem push_writes (f : AVFrame α) (h : DropsFirst x s) : Writes x (push x f s) := by
  simp only [push]
  split_ifs
  · refine h.unsent ?_
    exact (Unsent.call (c := .push _) rfl s).trans ⟨rfl, rfl, rfl, rfl, rfl⟩
  · exact h.unsent ⟨rfl, rfl, rfl, rfl, rfl⟩

theorem sendChunk_writes (fillCode sendCode : ℤ) (chunk : List (Sample α))
    (h : DropsFirst x s) : Writes x (sendChunk x fillCode sendCode chunk s) := by
  have hfilled := h.unsent (filled_unsent x chunk s)
  have hsent : DropsFirst x (handedOver x chunk s) :=
    hfilled.call (received_sendFrame _ _ _) (written_sendFrame _ _ _)
  exact sendChunk_holds (h.unsent ⟨rfl, rfl, rfl, rfl, rfl⟩) hsent hsent

theorem dropsFirst_invariant (x : Context α) : Invariant x (DropsFirst x) where
  readFrame s hs := hs.unsent (Unsent.call rfl s)
  unref s hs := hs.unsent (Unsent.call rfl s)
  push f _ hs := push_writes f hs
  pull s hs := hs.unsent (pull_unsent x s)
  sendChunk _ _ s hs := sendChunk_writes _ _ _ (hs.unsent (pull_unsent x s))
  receivePacket code pkt _ hs := receivePacket_writes code pkt hs
  sendNull _ hs := hs.call (received_sendNull _) (written_sendNull _)
  writeTrailer _ hs := hs.unsent (Unsent.call rfl _)

/-- **Every run**, also one that fails, has handed the muxer the packets that it has received
but the first. -/
theorem run_dropsFirst (x : Context α) (events : List (Event α)) (mem : ℤ → α) (handle : ℕ → ℤ) :
    Flow.Holds (fun _ => False) (fun r => DropsFirst x r.2)
      (run x events (State.init x mem handle)) :=
  (dropsFirst_invariant x).run events ⟨rfl, rfl⟩

/-! ## The stamps of every run -/

/-- **The stamps of every run**: the packets of the encoder have no time stamps, and the muxer
refuses none of those that it is handed, as long as each takes at least a tick and all of them
less than `INT64_MAX` ticks. Every stamp is the time of the samples written before the packet, to
the nearest tick, however long the stream is. -/
theorem run_timestamps (x : Context α) {m : Muxer} (hm : m.IsAudio) {src : AVRational}
    (hx : x.ffmpeg.rescaleTs = avPacketRescaleTs src m.timeBase)
    (events : List (Event α)) (mem : ℤ → α) (handle : ℕ → ℤ) {r : ℤ × State α}
    (hr : run x events (State.init x mem handle) = Flow.ret r)
    (hpkts : ∀ p ∈ received r.2.log, m.Unstamped p)
    (hrange : m.ticks (((written r.2.log).map m.samples).sum) + 1 ≤ int64Max) :
    written r.2.log = (received r.2.log).tail.map x.stamp ∧
      m.writeAll m.init (written r.2.log) = some (m.stamped 0 (written r.2.log)) := by
  have hwritten : written r.2.log = (received r.2.log).tail.map x.stamp := by
    have hrun := run_dropsFirst x events mem handle
    rw [hr, Flow.holds_ret] at hrun
    exact hrun.written
  refine ⟨hwritten, ?_⟩
  have hden : 0 < m.timeBase.num * m.sampleRate := mul_pos hm.num_pos hm.rate_pos
  have hmax : m.timeBase.num * m.sampleRate ≤ int64Max := by
    have hle := mul_le_int64Max hm.num_pos hm.num_le hm.rate_le
    have hhalf : int64Max / 2 ≤ int64Max := by decide
    omega
  refine writeAll_eq hm _ ?_ le_rfl ?_ (Or.inl rfl) ?_
  · intro w hw
    rw [hwritten] at hw
    rcases List.mem_map.1 hw with ⟨p, hp, rfl⟩
    have hpkt := hpkts p (List.mem_of_mem_tail hp)
    have hstamp : x.stamp p =
        avPacketRescaleTs src m.timeBase { p with streamIndex := x.streamIndex } := by
      rw [Context.stamp, hx]
    rw [hstamp]
    refine ⟨?_, ?_, hpkt.size, hpkt.le, hpkt.tick_le⟩
    · simp [avPacketRescaleTs, hpkt.pts]
    · simp [avPacketRescaleTs, hpkt.dts]
  · rw [mul_zero]
    exact fracInit_counts hden hmax
  · have hq : (0 : ℚ) < (m.timeBase.num * m.sampleRate : ℤ) := by exact_mod_cast hden
    rw [Muxer.ticks_eq hm, div_add_one hq.ne', div_le_iff₀ hq] at hrange
    rw [zero_add]
    exact_mod_cast hrange

end run

/-- Blocks of two samples, each of which gives a packet with a full frame of the encoder. -/
def stampContext : Context ℤ :=
  { monoContext with
    ffmpeg :=
      { monoContext.ffmpeg with
        packets := fun log => [⟨(received log).length, 0, noPts, noPts, 1024⟩]
        rescaleTs := avPacketRescaleTs ⟨1, 44100⟩ ⟨1, 1000⟩ } }

/-- Milliseconds in the output. -/
def stampMuxer : Muxer := ⟨⟨1, 1000⟩, 44100, fun _ => 100, fun _ => 1024⟩

/-- Five samples: three packets, of which two are written, the second 1024 samples on. -/
theorem run_timestamps_stamp :
    ∃ r pkts, run stampContext [.accepted [⟨5, fun _ => 0, id⟩]]
        (State.init stampContext (fun _ => 0) fun _ => 0) = Flow.ret r ∧
      stampMuxer.writeAll stampMuxer.init (written r.2.log) = some pkts ∧
      pkts.map (·.dts) = [0, 23] := by
  have hrun : ∃ r, run stampContext [.accepted [⟨5, fun _ => 0, id⟩]]
      (State.init stampContext (fun _ => 0) fun _ => 0) = Flow.ret r ∧
        received r.2.log = (List.range 3).map fun k : ℕ => ⟨k, 0, noPts, noPts, 1024⟩ :=
    ⟨_, rfl, rfl⟩
  rcases hrun with ⟨r, hr, hreceived⟩
  have haudio : stampMuxer.IsAudio := by constructor <;> decide
  have hsamples : ∀ p, stampMuxer.samples p = 1024 := fun _ => rfl
  have hwritten : written r.2.log = (received r.2.log).tail.map stampContext.stamp := by
    have hwrites := run_dropsFirst stampContext [.accepted [⟨5, fun _ => 0, id⟩]] (fun _ => 0)
      fun _ => 0
    rw [hr, Flow.holds_ret] at hwrites
    exact hwrites.written
  have htwo : ∃ p q, written r.2.log = [p, q] := by
    rw [hwritten, hreceived]
    exact ⟨_, _, rfl⟩
  rcases htwo with ⟨p, q, htwo⟩
  have hstamps := run_timestamps stampContext haudio rfl _ _ _ hr ?_ ?_
  · refine ⟨r, _, hr, hstamps.2, ?_⟩
    have hfirst : Rounding.nearInf.apply (stampMuxer.ticks 0) = 0 := by
      norm_num [Rounding.apply, Muxer.ticks, Int.floor_eq_iff]
    have hsecond : Rounding.nearInf.apply (stampMuxer.ticks 1024) = 23 := by
      norm_num [Rounding.apply, Muxer.ticks, tick, stampMuxer, Int.floor_eq_iff]
    rw [htwo]
    simp only [Muxer.stamped, hsamples, zero_add, hfirst, hsecond, List.map_cons, List.map_nil]
  · rw [hreceived]
    intro p hp
    rcases List.mem_map.1 hp with ⟨k, -, rfl⟩
    have hsize : (100 : ℕ) ≠ 0 := by decide
    have hlong : (1024 : ℤ) ≤ intMax := by decide
    refine ⟨rfl, rfl, hsize, hlong, ?_⟩
    norm_num [Muxer.samples, tick, stampMuxer]
  · rw [htwo]
    simp only [List.map_cons, List.map_nil, hsamples]
    norm_num [Muxer.ticks, tick, stampMuxer, int64Max]

end AudioCrash.Audio
