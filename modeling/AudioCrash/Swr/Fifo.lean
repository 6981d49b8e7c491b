import AudioCrash.Swr.Convert
import AudioCrash.Lib.Extent

/-!
# The buffer of the resampler is a queue

At equal rates `swr_convert` hands out what was put in, in the order in which it was put in.
The samples that wait are those of the buffer from `in_buffer_index` on; the invariant is that
they end inside of it and that its cells have addresses of their own. Each part of the function
is a move of an `Extent`, and the function is `Queue.exchange`, with the same failures.

## Main definitions

* `copy_cell`, `copy_other` — what `copy` writes.
* `Represents` — the queue that a context stands for.
* `swrConvert_represents` — one call.
* `runCalls`, `runQueue`, `runCalls_eq` — any calls after `swr_init`.
-/

namespace AudioCrash.Swr

open Audio Grid

variable {α : Type}

/-! ## Copying -/

/-- The first `n` samples of all channels have addresses of their own. -/
def AudioData.Apart (a : AudioData α) (n : ℕ) : Prop :=
  ∀ c < a.chCount, ∀ c' < a.chCount, ∀ i < n, ∀ i' < n, a.cell c i = a.cell c' i' →
    c = c' ∧ i = i'

section copy
variable {out inp : AudioData α} {n : ℕ}

theorem AudioData.cell_planar {a : AudioData α} (h : a.planar = true) (c i : ℕ) :
    a.cell c i = a.ch c + i * a.bps := by simp [cell, h]

theorem AudioData.cell_packed {a : AudioData α} (h : a.planar = false) (c i : ℕ) :
    a.cell c i = a.ch 0 + ((i * a.chCount + c : ℕ) : ℤ) * a.bps := by simp [cell, h]

/-- In a packed buffer the scalars lie one behind the other. -/
theorem AudioData.packed_cell {a : AudioData α} (h : a.planar = false) (k : ℕ) :
    a.ch 0 + (k : ℤ) * a.bps = a.cell (k % a.chCount) (k / a.chCount) := by
  rw [a.cell_packed h, Nat.div_add_mod']

/-- Every sample is copied. -/
theorem copy_cell (hl : out.SameLayout inp) (hapart : out.Apart n) {c i : ℕ}
    (hc : c < out.chCount) (hi : i < n) :
    copy out inp n (out.cell c i) = inp.mem (inp.cell c i) := by
  rcases hl with ⟨hch, hbps, hplanar⟩
  cases hp : out.planar with
  | true =>
    simp only [copy, hp, if_true]
    rw [out.cell_planar hp, inp.cell_planar (hplanar ▸ hp), ← hbps]
    refine updateGrid_cell out.chCount n (fun c i => out.ch c + i * out.bps)
      (fun c i _ => inp.mem (inp.ch c + i * out.bps)) out.mem ?_ hc hi
    intro c hc c' hc' i hi i' hi' heq
    rw [← out.cell_planar hp, ← out.cell_planar hp] at heq
    exact hapart c hc c' hc' i hi i' hi' heq
  | false =>
    have hpos : 0 < out.chCount := Nat.zero_lt_of_lt hc
    have hcell : i * out.chCount + c < n * out.chCount := by
      calc i * out.chCount + c < (i + 1) * out.chCount := by rw [Nat.add_mul]; omega
        _ ≤ n * out.chCount := Nat.mul_le_mul_right _ hi
    simp only [copy, hp]
    rw [out.cell_packed hp, inp.cell_packed (hplanar ▸ hp), ← hbps, ← hch]
    refine updateRow_cell (n * out.chCount) (fun k => out.ch 0 + k * out.bps)
      (fun k _ => inp.mem (inp.ch 0 + k * out.bps)) out.mem ?_ hcell
    intro k hk k' hk' heq
    rw [out.packed_cell hp, out.packed_cell hp] at heq
    have hdiv : ∀ k < n * out.chCount, k / out.chCount < n := fun k hk =>
      Nat.div_lt_of_lt_mul (Nat.mul_comm n out.chCount ▸ hk)
    have hsame := hapart _ (Nat.mod_lt k hpos) _ (Nat.mod_lt k' hpos) _ (hdiv k hk) _
      (hdiv k' hk') heq
    rw [← Nat.div_add_mod' k out.chCount, ← Nat.div_add_mod' k' out.chCount, hsame.1, hsame.2]

/-- Nothing else is written. -/
theorem copy_other {a : ℤ} (h : ∀ c < out.chCount, ∀ i < n, a ≠ out.cell c i) :
    copy out inp n a = out.mem a := by
  cases hp : out.planar with
  | true =>
    simp only [copy, hp, if_true]
    refine updateGrid_other out.chCount n (fun c i => out.ch c + i * out.bps)
      (fun c i _ => inp.mem (inp.ch c + i * out.bps)) out.mem ?_
    intro c hc i hi
    rw [← out.cell_planar hp]
    exact h c hc i hi
  | false =>
    simp only [copy, hp]
    refine updateRow_other (n * out.chCount) (fun k => out.ch 0 + k * out.bps)
      (fun k _ => inp.mem (inp.ch 0 + k * out.bps)) out.mem ?_
    intro k hk
    have hpos : 0 < out.chCount := by
      rcases Nat.eq_zero_or_pos out.chCount with h0 | h0
      · simp [h0] at hk
      · exact h0
    rw [out.packed_cell hp]
    exact h _ (Nat.mod_lt k hpos) _ (Nat.div_lt_of_lt_mul (Nat.mul_comm n out.chCount ▸ hk))

end copy

/-! ## Pointers into a buffer -/

section pointers
variable {out inp : AudioData α} {n : ℕ}

theorem AudioData.SameLayout.refl (a : AudioData α) : a.SameLayout a := ⟨rfl, rfl, rfl⟩

/-- The pointers lead to the samples from `n` on. -/
theorem bufSet_cell (hl : out.SameLayout inp) {c : ℕ} (hc : c < out.chCount) (i : ℕ) :
    (bufSet out inp n).cell c i = inp.cell c (n + i) := by
  rcases hl with ⟨hch, hbps, hplanar⟩
  have hpos : 0 < out.chCount := Nat.zero_lt_of_lt hc
  cases hp : inp.planar with
  | true =>
    have hp' : (bufSet out inp n).planar = true := hplanar.trans hp
    rw [AudioData.cell_planar hp', AudioData.cell_planar hp]
    simp only [bufSet, if_pos hc, hp, if_true, ← hbps]
    push_cast
    ring
  | false =>
    have hp' : (bufSet out inp n).planar = false := hplanar.trans hp
    rw [AudioData.cell_packed hp', AudioData.cell_packed hp]
    simp only [bufSet, if_pos hpos, hp, Bool.false_eq_true, if_false, ← hbps, ← hch]
    push_cast
    ring

theorem bufSet_sample (hl : out.SameLayout inp) {c : ℕ} (hc : c < out.chCount) (i : ℕ) :
    (bufSet out inp n).sample i c = inp.sample (n + i) c := by
  rw [AudioData.sample, AudioData.sample, bufSet_cell hl hc]
  rfl

theorem bufSet_apart (hl : out.SameLayout inp) {m : ℕ} (h : inp.Apart (n + m)) :
    (bufSet out inp n).Apart m := by
  intro c hc c' hc' i hi i' hi' heq
  rw [bufSet_cell hl hc, bufSet_cell hl hc'] at heq
  have hcell := h c (hl.1 ▸ hc) c' (hl.1 ▸ hc') (n + i) (by omega) (n + i') (by omega) heq
  exact ⟨hcell.1, by omega⟩

/-- The samples of a decoded frame, as they are read through plane pointers. -/
theorem fillAudiodata_sample {b : AudioData α} {fmt : SampleFormat} {C : ℕ} {zero : α}
    (hl : b.SameLayout (setAudiodataFmt fmt C zero)) (f : AVFrame α) (ptrs : ℕ → ℤ) {c : ℕ}
    (hc : c < C) (i : ℕ) :
    (fillAudiodata b f ptrs).sample i c =
      if fmt.isPlanar then f.mem (ptrs c + i * fmt.bytesPerSample)
      else f.mem (ptrs 0 + (i * C + c) * fmt.bytesPerSample) := by
  rcases hl with ⟨hch, hbps, hplanar⟩
  simp only [setAudiodataFmt] at hch hbps hplanar
  have hc' : c < b.chCount := hch ▸ hc
  have hpos : 0 < C := Nat.zero_lt_of_lt hc
  by_cases h1 : C = 1
  · obtain rfl : c = 0 := by omega
    simp [AudioData.sample, AudioData.cell, fillAudiodata, hplanar, h1, hbps, hch]
  · rw [if_neg h1] at hplanar
    cases hp : fmt.isPlanar with
    | true => simp [AudioData.sample, AudioData.cell, fillAudiodata, hplanar, hp, hbps, hc']
    | false =>
      simp [AudioData.sample, AudioData.cell, fillAudiodata, hplanar, hp, hbps, hpos, hch]

end pointers

/-! ## A larger buffer -/

/-- Rows of one length, counted through. -/
theorem mul_add_inj {k a b r s : ℕ} (hr : r < k) (hs : s < k) (h : a * k + r = b * k + s) :
    a = b ∧ r = s := by
  have hdiv : ∀ {a r : ℕ}, r < k → (a * k + r) / k = a := by
    intro a r hr
    rw [Nat.mul_comm, Nat.mul_add_div (Nat.zero_lt_of_lt hr), Nat.div_eq_of_lt hr, Nat.add_zero]
  have hab : a = b := by rw [← hdiv (a := a) hr, h, hdiv hs]
  exact ⟨hab, by rw [hab] at h; exact Nat.add_left_cancel h⟩

section realloc
variable {available : ℕ → Bool} {zero : α} {a a' : AudioData α} {n : ℕ}

/-- The layout of a buffer that has just been allocated. -/
theorem apart_of_ch {countb : ℕ} (hbps : 0 < a.bps) (hcountb : n * a.bps ≤ countb)
    (hch : ∀ c < a.chCount, a.ch c = ((c * if a.planar then countb else a.bps : ℕ) : ℤ)) :
    a.Apart n := by
  intro c hc c' hc' i hi i' hi' heq
  cases hp : a.planar with
  | true =>
    have hlt : ∀ i < n, i * a.bps < countb := fun i hi =>
      lt_of_lt_of_le (Nat.mul_lt_mul_of_pos_right hi hbps) hcountb
    rw [a.cell_planar hp, a.cell_planar hp, hch c hc, hch c' hc', hp, if_pos rfl] at heq
    have hnat : c * countb + i * a.bps = c' * countb + i' * a.bps := by exact_mod_cast heq
    rcases mul_add_inj (hlt i hi) (hlt i' hi') hnat with ⟨hcc, hii⟩
    exact ⟨hcc, Nat.eq_of_mul_eq_mul_right hbps hii⟩
  | false =>
    rw [a.cell_packed hp, a.cell_packed hp] at heq
    have hnat : (i * a.chCount + c) * a.bps = (i' * a.chCount + c') * a.bps := by
      exact_mod_cast Int.add_left_cancel heq
    rcases mul_add_inj hc hc' (Nat.eq_of_mul_eq_mul_right hbps hnat) with ⟨hii, hcc⟩
    exact ⟨hcc, hii⟩

/-- The sizes that `swri_realloc_audio` accepts. -/
def limit (bps chCount size : ℕ) : Bool := size ≤ intMax / 2 / bps / chCount

/-- The sizes that there is memory for. -/
def memory (available : ℕ → Bool) (bps chCount size : ℕ) : Bool :=
  avMalloc available (align32 (2 * size * bps) * chCount)

theorem swriReallocAudio_of_not_limit (h : limit a.bps a.chCount n = false) :
    swriReallocAudio available zero a n = .error einval := by
  simp only [limit, decide_eq_false_iff_not, not_le] at h
  simp only [swriReallocAudio, Nat.cast_lt, h, decide_true, Bool.or_true, if_true]

/-- A size under the limit gets past the check. -/
theorem swriReallocAudio_of_limit (h : limit a.bps a.chCount n = true) :
    swriReallocAudio available zero a n =
      if n ≤ a.count then .ok a
      else if avMalloc available (align32 (2 * n * a.bps) * a.chCount) then
        .ok (reallocated zero a (2 * n) (align32 (2 * n * a.bps)))
      else .error enomem := by
  simp only [limit, decide_eq_true_eq] at h
  have hpass : ¬ ((n : ℤ) < 0 || ((intMax / 2 / a.bps / a.chCount : ℕ) : ℤ) < n) = true := by
    simp only [Bool.or_eq_true, decide_eq_true_eq]
    omega
  rw [swriReallocAudio, if_neg hpass]
  simp only [Nat.cast_le, Int.toNat_natCast]

theorem swriReallocAudio_of_le (h : limit a.bps a.chCount n = true) (hle : n ≤ a.count) :
    swriReallocAudio available zero a n = .ok a := by
  rw [swriReallocAudio_of_limit h, if_pos hle]

theorem swriReallocAudio_of_not_memory (h : limit a.bps a.chCount n = true) (hlt : a.count < n)
    (hmem : memory available a.bps a.chCount n = false) :
    swriReallocAudio available zero a n = .error enomem := by
  rw [memory] at hmem
  rw [swriReallocAudio_of_limit h, if_neg (not_le.2 hlt), hmem, if_neg Bool.false_ne_true]

variable (zero) in
/-- **The buffer is enlarged**, with all samples in their places. -/
theorem swriReallocAudio_of_memory (hbps : 0 < a.bps) (h : limit a.bps a.chCount n = true)
    (hlt : a.count < n)
    (hmem : memory available a.bps a.chCount n = true) :
    ∃ a', swriReallocAudio available zero a n = .ok a' ∧ a'.SameLayout a ∧ a'.count = 2 * n ∧
      a'.Apart (2 * n) ∧ ∀ c < a.chCount, ∀ i < a.count, a'.sample i c = a.sample i c := by
  rw [memory] at hmem
  refine ⟨reallocated zero a (2 * n) (align32 (2 * n * a.bps)), ?eq, ⟨rfl, rfl, rfl⟩, rfl, ?apart,
    ?cells⟩
  case eq => rw [swriReallocAudio_of_limit h, if_neg (not_le.2 hlt), if_pos hmem]
  case apart => exact apart_of_ch hbps (le_align32 _) fun c hc => if_pos hc
  case cells =>
    intro c hc i hi
    have hle : a.count * a.bps ≤ align32 (2 * n * a.bps) :=
      (Nat.mul_le_mul_right _ (by omega)).trans (le_align32 _)
    have happart : (allocated zero a (align32 (2 * n * a.bps))).Apart a.count :=
      apart_of_ch hbps hle fun c hc => if_pos hc
    have hl : (allocated zero a (align32 (2 * n * a.bps))).SameLayout a := ⟨rfl, rfl, rfl⟩
    exact copy_cell hl happart hc hi

end realloc

/-! ## The queue that a context stands for -/

/-- The values of the channels that there are. -/
def onChannels (C : ℕ) (v : Sample α) : Fin C → α := fun c => v c

/-- The samples that wait in the buffer are the elements of the queue. -/
structure Represents (fmt : SampleFormat) (C : ℕ) (zero : α) (s : SwrContext α)
    (q : Queue (Fin C → α)) : Prop where
  layout : s.inBuffer.SameLayout (setAudiodataFmt fmt C zero)
  apart : s.inBuffer.Apart s.inBuffer.count
  capacity : s.inBuffer.count = q.extent.capacity
  index : s.inBufferIndex = q.extent.index
  count : s.inBufferCount = q.extent.count
  front : s.inBufferCount = 0 → s.inBufferIndex = 0
  items : q.items = q.extent.content fun i => onChannels C (s.inBuffer.sample i)

section represents
variable {fmt : SampleFormat} {C : ℕ} {zero : α} {s : SwrContext α} {q : Queue (Fin C → α)}
  {available : ℕ → Bool} {n : ℕ}

theorem Represents.init (fmt : SampleFormat) (C : ℕ) (zero : α) :
    Represents fmt C zero (.init fmt C zero) .empty where
  layout := ⟨rfl, rfl, rfl⟩
  apart := fun _ _ _ _ _ hi => absurd hi (Nat.not_lt_zero _)
  capacity := rfl
  index := rfl
  count := rfl
  front := fun _ => rfl
  items := rfl

theorem Represents.chCount (h : Represents fmt C zero s q) : s.inBuffer.chCount = C := h.layout.1

theorem Represents.bps (h : Represents fmt C zero s q) :
    s.inBuffer.bps = fmt.bytesPerSample := h.layout.2.1

/-! ## The parts of the function -/

/-- **Samples are taken out at the front.** -/
theorem takeOut_represents (h : Represents fmt C zero s q) (n : ℕ) :
    (s.takeOut n).1.map (onChannels C) = (q.take n).1 ∧
      Represents fmt C zero (s.takeOut n).2.1 (q.take n).2 ∧
      (s.takeOut n).2.2 = n - (q.take n).1.length := by
  have hlen : q.items.length = s.inBufferCount := q.length_eq.trans h.count.symm
  have hcount := h.count
  have hindex := h.index
  by_cases hsize : min n s.inBufferCount = 0
  · have htake : q.items.take n = [] := by
      rw [← List.length_eq_zero_iff, List.length_take, hlen]
      exact hsize
    have hdrop : q.items.drop n = q.items := by
      conv_rhs => rw [← List.take_append_drop n q.items, htake, List.nil_append]
    have hfront := h.front
    simp only [SwrContext.takeOut, if_pos hsize]
    refine ⟨by simp [htake], ⟨h.layout, h.apart, ?_, ?_, ?_, h.front, ?_⟩, by simp [htake]⟩
    · simpa using h.capacity
    · rw [Queue.take_snd_extent, Extent.take_index]
      split_ifs <;> omega
    · rw [Queue.take_snd_extent, Extent.take_count]
      omega
    · rw [Queue.take_snd_items, Queue.take_snd_extent, Extent.content_take, ← h.items]
  · simp only [SwrContext.takeOut, if_neg hsize]
    refine ⟨?out, ⟨h.layout, h.apart, by simpa using h.capacity, ?index, ?count,
      ?front, ?items⟩, by simp [hlen]⟩
    case out =>
      have hle : min n s.inBufferCount ≤ q.extent.count := by omega
      have htake : q.items.take n = q.items.take (min n s.inBufferCount) := by
        rw [← hlen, List.take_eq_take_min]
      rw [Queue.take_fst, htake, h.items, Extent.take_content hle]
      simp only [AudioData.samples, List.map_map, ← hindex]
      refine List.map_congr_left fun i _ => funext fun c => ?_
      exact bufSet_sample (.refl _) (h.chCount ▸ c.isLt) i
    case index =>
      change (if s.inBufferCount - min n s.inBufferCount = 0 then 0
        else s.inBufferIndex + min n s.inBufferCount) = (q.extent.take n).index
      rw [Extent.take_index]
      split_ifs <;> omega
    case count =>
      change s.inBufferCount - min n s.inBufferCount = (q.extent.take n).count
      rw [Extent.take_count]
      omega
    case front =>
      intro h0
      exact if_pos h0
    case items =>
      rw [Queue.take_snd_items, Queue.take_snd_extent, Extent.content_take, ← h.items]

/-- The queue moves to the front of the buffer, from cells that it does not overlap. -/
theorem moveToFront_represents (h : Represents fmt C zero s q) :
    Represents fmt C zero s.moveToFront ⟨q.items, q.extent.slide, q.length_eq⟩ := by
  have hle := q.extent.le
  have hindex := h.index
  have hcount := h.count
  have hcapacity := h.capacity
  refine ⟨h.layout, h.apart, h.capacity, rfl, h.count, fun _ => rfl, ?_⟩
  refine h.items.trans (Extent.content_slide fun i hi => funext fun c => ?_).symm
  have hc : (c : ℕ) < s.inBuffer.chCount := h.chCount ▸ c.isLt
  have happart : s.inBuffer.Apart s.inBufferCount := by
    intro c hc c' hc' i hi i' hi'
    exact h.apart c hc c' hc' i (by omega) i' (by omega)
  have hl : s.inBuffer.SameLayout (bufSet s.inBuffer s.inBuffer s.inBufferIndex) := ⟨rfl, rfl, rfl⟩
  refine (copy_cell hl happart hc (hcount ▸ hi)).trans ?_
  rw [← hindex]
  exact bufSet_sample (.refl _) hc i

/-- What `makeRoom` does: the moves of `Extent.place`, in its cases. -/
theorem makeRoom_of_moves (hn : s.moves n = true) :
    s.makeRoom available zero n = .ok s.moveToFront := by
  rw [SwrContext.makeRoom, if_pos hn]

theorem wrap_of_le {n : ℕ} (h : n ≤ intMax) : wrap n = n := by
  rw [intMax] at h
  exact Int.bmod_eq_of_le (by omega) (by omega)

section sizes
variable (hint : s.inBufferIndex + s.inBufferCount + n ≤ intMax)
include hint

theorem moves_eq : s.moves n =
    (decide (s.inBuffer.count < s.inBufferIndex + s.inBufferCount + n) &&
      decide (s.inBufferCount + n ≤ s.inBufferIndex)) := by
  rw [SwrContext.moves, wrap_of_le hint, wrap_of_le (by omega)]
  simp only [Nat.cast_lt, Nat.cast_le]

theorem makeRoom_of_realloc (hn : s.moves n = false) {buffer : AudioData α}
    (h : swriReallocAudio available zero s.inBuffer
      (s.inBufferIndex + s.inBufferCount + n : ℕ) = .ok buffer) :
    s.makeRoom available zero n = .ok { s with inBuffer := buffer } := by
  rw [SwrContext.makeRoom, if_neg (by simp [hn]), wrap_of_le hint, h]

theorem makeRoom_of_error (hn : s.moves n = false) {code : ℤ}
    (h : swriReallocAudio available zero s.inBuffer
      (s.inBufferIndex + s.inBufferCount + n : ℕ) = .error code) :
    s.makeRoom available zero n = .error code := by
  rw [SwrContext.makeRoom, if_neg (by simp [hn]), wrap_of_le hint, h]

end sizes

/-- The buffer is enlarged around the queue. -/
theorem enlarge_represents (h : Represents fmt C zero s q) {size : ℕ} {buffer : AudioData α}
    (hlt : s.inBuffer.count < size) (hl : buffer.SameLayout s.inBuffer)
    (hcount : buffer.count = 2 * size) (happart : buffer.Apart (2 * size))
    (hsample : ∀ c < s.inBuffer.chCount, ∀ i < s.inBuffer.count,
      buffer.sample i c = s.inBuffer.sample i c) :
    Represents fmt C zero { s with inBuffer := buffer }
      ⟨q.items, q.extent.enlarge (2 * size), q.length_eq⟩ := by
  have hle := q.extent.le
  have hcapacity := h.capacity
  refine ⟨⟨hl.1.trans h.layout.1, hl.2.1.trans h.layout.2.1, hl.2.2.trans h.layout.2.2⟩,
    hcount ▸ happart, ?_, h.index, h.count, h.front, ?_⟩
  · change buffer.count = max q.extent.capacity (2 * size)
    omega
  · have hitems : (q.extent.content fun i => onChannels C (buffer.sample i)) =
        q.extent.content fun i => onChannels C (s.inBuffer.sample i) := by
      refine Extent.content_congr fun i hi => funext fun c => ?_
      exact hsample c (h.chCount ▸ c.isLt) _ (by omega)
    exact h.items.trans hitems.symm

/-- **Samples are put in at the end**, in cells behind the queue. -/
theorem putIn_represents (h : Represents fmt C zero s q) {inp : AudioData α} {n : ℕ}
    (hl : s.inBuffer.SameLayout inp) (hn : 0 < n)
    (room : q.extent.index + q.extent.count + n ≤ q.extent.capacity) :
    Represents fmt C zero (s.putIn inp n)
      ⟨q.items ++ (inp.samples n).map (onChannels C), q.extent.append n room, by
        simp [q.length_eq, Extent.append, AudioData.samples]⟩ := by
  have hindex := h.index
  have hcount := h.count
  have hcapacity := h.capacity
  have hcell : ∀ c < s.inBuffer.chCount, ∀ i,
      (bufSet s.inBuffer s.inBuffer (s.inBufferIndex + s.inBufferCount)).cell c i =
        s.inBuffer.cell c (q.extent.index + q.extent.count + i) := by
    intro c hc i
    rw [← hindex, ← hcount]
    exact bufSet_cell (.refl s.inBuffer) hc i
  have htmp : (bufSet s.inBuffer s.inBuffer (s.inBufferIndex + s.inBufferCount)).Apart n :=
    bufSet_apart (.refl _) fun c hc c' hc' i hi i' hi' =>
      h.apart c hc c' hc' i (by omega) i' (by omega)
  have htl : (bufSet s.inBuffer s.inBuffer (s.inBufferIndex + s.inBufferCount)).SameLayout inp := hl
  refine ⟨h.layout, h.apart, h.capacity, h.index, ?count, ?front, ?items⟩
  case count =>
    change s.inBufferCount + n = q.extent.count + n
    rw [h.count]
  case front =>
    intro h0
    change s.inBufferCount + n = 0 at h0
    omega
  case items =>
    have hnew : ∀ i < n, ∀ c < s.inBuffer.chCount,
        (s.putIn inp n).inBuffer.sample (q.extent.index + q.extent.count + i) c =
          inp.sample i c := by
      intro i hi c hc
      have hcopy := copy_cell htl htmp hc hi
      rwa [hcell c hc] at hcopy
    have hold : ∀ i < q.extent.count, onChannels C
        ((s.putIn inp n).inBuffer.sample (q.extent.index + i)) =
          onChannels C (s.inBuffer.sample (q.extent.index + i)) := by
      intro i hi
      refine funext fun c => copy_other ?_
      intro c' hc' i' hi' heq
      have hc : (c : ℕ) < s.inBuffer.chCount := h.chCount ▸ c.isLt
      rw [hcell c' hc'] at heq
      have := (h.apart c hc c' hc' _ (by omega) _ (by omega) heq).2
      omega
    have hput : (inp.samples n).map (onChannels C) = (List.range n).map fun i =>
        onChannels C ((s.putIn inp n).inBuffer.sample (q.extent.index + q.extent.count + i)) := by
      simp only [AudioData.samples, List.map_map]
      refine List.map_congr_left fun i hi => funext fun c => ?_
      exact (hnew i (List.mem_range.1 hi) c (h.chCount ▸ c.isLt)).symm
    calc q.items ++ (inp.samples n).map (onChannels C)
        = (q.extent.content fun i => onChannels C (s.inBuffer.sample i)) ++ _ :=
          congrArg₂ _ h.items hput
      _ = (q.extent.append n room).content fun i =>
          onChannels C ((s.putIn inp n).inBuffer.sample i) :=
        (Extent.content_append (fun i => onChannels C (s.inBuffer.sample i))
          (fun i => onChannels C ((s.putIn inp n).inBuffer.sample i)) room hold).symm

variable (available) in
/-- **Room is made, and the samples are put in**, with the failures of `Queue.put`. -/
theorem makeRoom_represents (h : Represents fmt C zero s q) {inp : AudioData α}
    (hl : s.inBuffer.SameLayout inp) (hn : 0 < n)
    (hint : s.inBufferIndex + s.inBufferCount + n ≤ intMax) :
    match q.put (limit fmt.bytesPerSample C) (memory available fmt.bytesPerSample C)
        ((inp.samples n).map (onChannels C)) with
    | none => ∃ code, s.makeRoom available zero n = .error code
    | some q' => ∃ s', s.makeRoom available zero n = .ok s' ∧
        Represents fmt C zero (s'.putIn inp n) q' := by
  have hlen : ((inp.samples n).map (onChannels C)).length = n := by simp [AudioData.samples]
  have hbps : 0 < s.inBuffer.bps := by
    rw [h.bps]
    cases fmt <;> decide
  have hmoves : s.moves n = q.extent.slides n := by
    rw [moves_eq hint, Extent.slides, h.capacity, h.index, h.count]
  have hsize : s.inBufferIndex + s.inBufferCount + n = q.extent.index + q.extent.count + n := by
    rw [h.index, h.count]
  have hlimit : limit s.inBuffer.bps s.inBuffer.chCount = limit fmt.bytesPerSample C := by
    rw [h.bps, h.chCount]
  have hmemory : memory available s.inBuffer.bps s.inBuffer.chCount =
      memory available fmt.bytesPerSample C := by
    rw [h.bps, h.chCount]
  have hput : ∀ {e : Extent} (room : e.index + e.count + n ≤ e.capacity),
      e.count = q.extent.count →
      q.extent.place n (limit fmt.bytesPerSample C) (memory available fmt.bytesPerSample C) =
        some (e.append n room) →
      ∃ hlen', q.put (limit fmt.bytesPerSample C) (memory available fmt.bytesPerSample C)
        ((inp.samples n).map (onChannels C)) =
          some ⟨q.items ++ (inp.samples n).map (onChannels C), e.append n room, hlen'⟩ := by
    intro e room hcount hplace
    refine ⟨by rw [List.length_append, hlen, q.length_eq, ← hcount]; rfl, ?_⟩
    exact Queue.put_of_some (by rw [hlen]; exact hplace) _
  cases hs : q.extent.slides n with
  | true =>
    rcases Extent.place_of_slides hs with ⟨room, hplace⟩
    rcases hput room rfl hplace with ⟨_, hput⟩
    rw [hput]
    exact ⟨_, makeRoom_of_moves (hmoves.trans hs), putIn_represents (moveToFront_represents h) hl hn
      room⟩
  | false =>
    cases hlim : limit fmt.bytesPerSample C (q.extent.index + q.extent.count + n) with
    | false =>
      rw [Queue.put_of_none (by rw [hlen]; exact Extent.place_of_not_limit hs hlim)]
      refine ⟨einval, makeRoom_of_error hint (hmoves.trans hs) ?_⟩
      exact swriReallocAudio_of_not_limit (by rw [hsize, hlimit, hlim])
    | true =>
      rcases Nat.lt_or_ge q.extent.capacity (q.extent.index + q.extent.count + n) with hlt | hle
      · cases hmem : memory available fmt.bytesPerSample C
            (q.extent.index + q.extent.count + n) with
        | false =>
          rw [Queue.put_of_none (by rw [hlen]; exact Extent.place_of_not_memory hs hlt hmem)]
          refine ⟨enomem, makeRoom_of_error hint (hmoves.trans hs) ?_⟩
          exact swriReallocAudio_of_not_memory (by rw [hsize, hlimit, hlim])
            (by rw [hsize, h.capacity]; exact hlt) (by rw [hsize, hmemory, hmem])
        | true =>
          rcases Extent.place_of_memory hs hlim hlt hmem with ⟨room, hplace⟩
          rcases hput room rfl hplace with ⟨_, hput⟩
          rcases swriReallocAudio_of_memory zero hbps (by rw [hlimit, hlim])
            (by rw [h.capacity]; exact hlt) (by rw [hmemory, hmem])
            with ⟨buffer, hrealloc, hlay, hcount, happart, hsample⟩
          rw [hput]
          refine ⟨_, makeRoom_of_realloc hint (hmoves.trans hs) (by rw [hsize]; exact hrealloc), ?_⟩
          have hlarge := enlarge_represents h (by rw [h.capacity]; exact hlt) hlay hcount happart
            hsample
          exact putIn_represents hlarge ⟨hlay.1.trans hl.1, hlay.2.1.trans hl.2.1,
            hlay.2.2.trans hl.2.2⟩ hn room
      · rcases hput hle rfl (Extent.place_of_le hs hlim hle) with ⟨_, hput⟩
        rw [hput]
        refine ⟨s, makeRoom_of_realloc hint (hmoves.trans hs) ?_, putIn_represents h hl hn hle⟩
        exact swriReallocAudio_of_le (by rw [hsize, hlimit, hlim])
          (by rw [hsize, h.capacity]; exact hle)

/-- A result of `swr_convert` and one of the queue: both have failed, or the same samples come
out and the context stands for the queue. -/
def SameResult (fmt : SampleFormat) (C : ℕ) (zero : α) :
    Except ℤ (List (Sample α) × SwrContext α) →
      Option (List (Fin C → α) × Queue (Fin C → α)) → Prop
  | .ok (out, s), some (out', q) => out.map (onChannels C) = out' ∧ Represents fmt C zero s q
  | .error _, none => True
  | _, _ => False

theorem SameResult.exists_error {r : Except ℤ (List (Sample α) × SwrContext α)}
    (h : SameResult fmt C zero r none) : ∃ code, r = .error code := by
  cases r with
  | error code => exact ⟨code, rfl⟩
  | ok p => exact h.elim

theorem SameResult.exists_ok {r : Except ℤ (List (Sample α) × SwrContext α)}
    {out' : List (Fin C → α)} {q : Queue (Fin C → α)}
    (h : SameResult fmt C zero r (some (out', q))) :
    ∃ out s, r = .ok (out, s) ∧ out.map (onChannels C) = out' ∧ Represents fmt C zero s q := by
  cases r with
  | error code => exact h.elim
  | ok p => exact ⟨p.1, p.2, rfl, h⟩

/-- One call after another. -/
theorem SameResult.bind {r : Except ℤ (List (Sample α) × SwrContext α)}
    {r' : Option (List (Fin C → α) × Queue (Fin C → α))} (h : SameResult fmt C zero r r')
    {f : List (Sample α) × SwrContext α → Except ℤ (List (Sample α) × SwrContext α)}
    {g : List (Fin C → α) × Queue (Fin C → α) → Option (List (Fin C → α) × Queue (Fin C → α))}
    (hf : ∀ out s q, Represents fmt C zero s q → r' = some (out.map (onChannels C), q) →
      SameResult fmt C zero (f (out, s)) (g (out.map (onChannels C), q))) :
    SameResult fmt C zero (r.bind f) (r'.bind g) := by
  cases r' with
  | none =>
    rcases h.exists_error with ⟨code, rfl⟩
    trivial
  | some p' =>
    obtain ⟨out', q'⟩ := p'
    rcases h.exists_ok with ⟨out, s', rfl, rfl, hrep⟩
    exact hf out s' q' hrep rfl

/-- Samples that have come out before. -/
theorem SameResult.append {r : Except ℤ (List (Sample α) × SwrContext α)}
    {r' : Option (List (Fin C → α) × Queue (Fin C → α))} (h : SameResult fmt C zero r r')
    (out : List (Sample α)) :
    SameResult fmt C zero (r.map fun (outs, s) => (out ++ outs, s))
      (r'.map fun (outs, q) => (out.map (onChannels C) ++ outs, q)) := by
  cases r' with
  | none =>
    rcases h.exists_error with ⟨code, rfl⟩
    trivial
  | some p' =>
    obtain ⟨out', q'⟩ := p'
    rcases h.exists_ok with ⟨outs, s', rfl, rfl, hrep⟩
    exact ⟨List.map_append, hrep⟩

/-- What a call puts in. -/
def inputOf (fmt : SampleFormat) (C : ℕ) : Option (AVFrame α × (ℕ → ℤ) × ℕ) → List (Fin C → α)
  | none => []
  | some (f, inArg, inCount) => (f.samples fmt C inCount inArg).map (onChannels C)

/-- The samples of a frame, read through its plane pointers. -/
theorem map_samples_fillAudiodata (h : Represents fmt C zero s q) (f : AVFrame α)
    (inArg : ℕ → ℤ) (n : ℕ) :
    ((fillAudiodata s.inBuffer f inArg).samples n).map (onChannels C) =
      inputOf fmt C (some (f, inArg, n)) := by
  simp only [inputOf, AudioData.samples, AVFrame.samples, List.map_map]
  refine List.map_congr_left fun i _ => funext fun c => ?_
  exact fillAudiodata_sample h.layout f inArg c.isLt i

/-- Leaving out the first samples is leaving out the first positions. -/
theorem map_samples_bufSet {inp : AudioData α} (hch : inp.chCount = C) (k n : ℕ) :
    ((bufSet inp inp k).samples (n - k)).map (onChannels C) =
      ((inp.samples n).map (onChannels C)).drop k := by
  apply List.ext_getElem
  · simp [AudioData.samples]
  · intro i hi _
    simp only [AudioData.samples, List.getElem_map, List.getElem_range, List.getElem_drop]
    exact funext fun c => bufSet_sample (.refl _) (hch ▸ c.isLt) i

theorem map_samples_take {inp : AudioData α} {k n : ℕ} (h : k ≤ n) :
    (inp.samples k).map (onChannels C) = ((inp.samples n).map (onChannels C)).take k := by
  rw [← List.map_take, AudioData.samples, AudioData.samples, ← List.map_take, List.take_range,
    Nat.min_eq_left h]

/-- A call that puts nothing in. -/
theorem swrDrain_represents (h : Represents fmt C zero s q) (outCount : ℕ) :
    (s.swrDrain outCount).1.map (onChannels C) = (q.take outCount).1 ∧
      Represents fmt C zero (s.swrDrain outCount).2 (q.take outCount).2 := by
  rcases takeOut_represents h outCount with ⟨hout, hrep, -⟩
  rw [SwrContext.swrDrain]
  split_ifs with hcount
  · have htake : s.takeOut outCount = ([], s, outCount) := by simp [SwrContext.takeOut, hcount]
    rw [htake] at hout hrep
    exact ⟨hout, hrep⟩
  · exact ⟨hout, hrep⟩

variable (available) in
/-- **One call** hands out what was put in first, and fails where the queue does, as long as the
size that it computes is an `int`. -/
theorem swrConvert_represents (h : Represents fmt C zero s q) (outCount : ℕ)
    (input : Option (AVFrame α × (ℕ → ℤ) × ℕ))
    (hint : q.extent.index + q.extent.count + (inputOf fmt C input).length ≤ intMax) :
    SameResult fmt C zero (s.swrConvert available zero outCount input)
      (q.exchange (limit fmt.bytesPerSample C) (memory available fmt.bytesPerSample C) outCount
        (inputOf fmt C input)) := by
  cases input with
  | none =>
    rw [inputOf, Queue.exchange_nil]
    exact swrDrain_represents h outCount
  | some input =>
    obtain ⟨f, inArg, inCount⟩ := input
    rcases takeOut_represents h outCount with ⟨hout, hrep, hrest⟩
    have hxs : (inputOf fmt C (some (f, inArg, inCount))).length = inCount := by simp [inputOf]
    have hinp := map_samples_fillAudiodata h f inArg inCount
    have hch : (fillAudiodata s.inBuffer f inArg).chCount = C := h.chCount
    rcases htake : s.takeOut outCount with ⟨out, s₁, rest⟩
    rw [htake] at hout hrep hrest
    simp only at hout hrep hrest
    simp only [SwrContext.swrConvert, Queue.exchange, htake, ← hrest, hxs]
    rcases Nat.lt_or_ge rest inCount with hlt | hle
    · have hsize : (if rest = 0 then 0 else min inCount rest) = rest := by
        split_ifs <;> omega
      have hl : s₁.inBuffer.SameLayout (bufSet (fillAudiodata s.inBuffer f inArg)
          (fillAudiodata s.inBuffer f inArg) rest) :=
        ⟨hrep.chCount.trans h.chCount.symm, hrep.bps.trans h.bps.symm,
          hrep.layout.2.2.trans h.layout.2.2.symm⟩
      have hsum : s₁.inBufferIndex + s₁.inBufferCount + (inCount - rest) ≤ intMax := by
        have hle := q.extent.take_end_le outCount
        rw [hxs] at hint
        rw [hrep.index, hrep.count, Queue.take_snd_extent]
        omega
      have hroom := makeRoom_represents available hrep hl (Nat.sub_pos_of_lt hlt) hsum
      rw [map_samples_bufSet hch, hinp] at hroom
      rw [if_neg (by omega), if_pos hlt, if_neg (not_le.2 hlt), hsize]
      cases hput : (q.take outCount).2.put (limit fmt.bytesPerSample C)
          (memory available fmt.bytesPerSample C)
          ((inputOf fmt C (some (f, inArg, inCount))).drop rest) with
      | none =>
        rw [hput] at hroom
        cases hroom with
        | intro code hcode =>
          rw [hcode]
          trivial
      | some q' =>
        rw [hput] at hroom
        cases hroom with
        | intro s₂ hmade =>
          have hleft : inCount - rest ≠ 0 := by omega
          simp only [hmade.1, if_neg hleft]
          refine ⟨?_, hmade.2⟩
          rw [List.map_append, hout, map_samples_take hlt.le, hinp]
    · rw [if_neg (not_lt.2 hle), if_pos hle]
      by_cases h0 : inCount = 0
      · rw [if_pos h0]
        refine ⟨?_, hrep⟩
        have hnil : inputOf fmt C (some (f, inArg, inCount)) = [] :=
          List.length_eq_zero_iff.1 (hxs.trans h0)
        rw [hout, hnil, List.append_nil]
      · have hsize : (if rest = 0 then 0 else min inCount rest) = inCount := by
          split_ifs <;> omega
        simp only [if_neg h0, hsize, Nat.sub_self, if_true]
        refine ⟨?_, hrep⟩
        rw [List.map_append, hout, hinp]

end represents

/-! ## Any calls -/

/-- Calls of `swr_convert` with one context: `out_count`, and what is put in. -/
def runCalls (available : ℕ → Bool) (zero : α) :
    List (ℕ × Option (AVFrame α × (ℕ → ℤ) × ℕ)) → SwrContext α →
      Except ℤ (List (Sample α) × SwrContext α)
  | [], s => .ok ([], s)
  | (outCount, input) :: calls, s =>
    (s.swrConvert available zero outCount input).bind fun (out, s) =>
      (runCalls available zero calls s).map fun (outs, s) => (out ++ outs, s)

/-- The same calls with a queue. -/
def runQueue {β : Type} (limit memory : ℕ → Bool) :
    List (ℕ × List β) → Queue β → Option (List β × Queue β)
  | [], q => some ([], q)
  | (outCount, xs) :: calls, q =>
    (q.exchange limit memory outCount xs).bind fun (out, q) =>
      (runQueue limit memory calls q).map fun (outs, q) => (out ++ outs, q)

/-- What comes out of a queue and what stays in it is what was in it and what has been put in. -/
theorem runQueue_items {β : Type} {limit memory : ℕ → Bool} {calls : List (ℕ × List β)}
    {q q' : Queue β} {outs : List β} (h : runQueue limit memory calls q = some (outs, q')) :
    outs ++ q'.items = q.items ++ (calls.map Prod.snd).flatten := by
  induction calls generalizing q outs with
  | nil =>
    cases h
    simp
  | cons call calls ih =>
    rcases Option.bind_eq_some_iff.1 h with ⟨⟨out, q₁⟩, hexchange, hrest⟩
    rcases Option.map_eq_some_iff.1 hrest with ⟨⟨outs', q₂⟩, hrun, heq⟩
    cases heq
    rw [List.append_assoc, ih hrun, ← List.append_assoc, Queue.exchange_items hexchange]
    simp

/-- The samples that a call puts in and those in the largest buffer are together an `int`. -/
def FitsInt (fmt : SampleFormat) (C : ℕ) (input : Option (AVFrame α × (ℕ → ℤ) × ℕ)) : Prop :=
  2 * (intMax / 2 / fmt.bytesPerSample / C) + (inputOf fmt C input).length ≤ intMax

/-- Calls with a context and with the queue that it stands for. -/
theorem runCalls_represents {fmt : SampleFormat} {C : ℕ} {zero : α} (available : ℕ → Bool)
    (calls : List (ℕ × Option (AVFrame α × (ℕ → ℤ) × ℕ))) {s : SwrContext α}
    {q : Queue (Fin C → α)} (h : Represents fmt C zero s q)
    (hcap : q.extent.capacity ≤ 2 * (intMax / 2 / fmt.bytesPerSample / C))
    (hcalls : ∀ call ∈ calls, FitsInt fmt C call.2) :
    SameResult fmt C zero (runCalls available zero calls s)
      (runQueue (limit fmt.bytesPerSample C) (memory available fmt.bytesPerSample C)
        (calls.map fun call => (call.1, inputOf fmt C call.2)) q) := by
  induction calls generalizing s q with
  | nil => exact ⟨rfl, h⟩
  | cons call calls ih =>
    obtain ⟨outCount, input⟩ := call
    have hle := q.extent.le
    have hfits : FitsInt fmt C input := hcalls _ List.mem_cons_self
    have hone := swrConvert_represents available h outCount input
      (le_trans (Nat.add_le_add_right (hle.trans hcap) _) hfits)
    refine hone.bind fun out s₁ q₁ h₁ hq₁ => ?_
    refine (ih h₁ ?_ fun call hcall => hcalls call (List.mem_cons_of_mem _ hcall)).append out
    exact Queue.exchange_capacity_le hq₁ (fun _ => of_decide_eq_true) hcap

/-- **The resampler is a queue**: any calls after `swr_init` whose sizes are `int`s fail exactly
where the queue does, and else what has come out and what waits in the buffer are what has been
put in, in order. -/
theorem runCalls_eq (fmt : SampleFormat) (C : ℕ) (zero : α) (available : ℕ → Bool)
    (calls : List (ℕ × Option (AVFrame α × (ℕ → ℤ) × ℕ)))
    (hcalls : ∀ call ∈ calls, FitsInt fmt C call.2) :
    SameResult fmt C zero (runCalls available zero calls (.init fmt C zero))
      (runQueue (limit fmt.bytesPerSample C) (memory available fmt.bytesPerSample C)
        (calls.map fun call => (call.1, inputOf fmt C call.2)) .empty) ∧
    ∀ outs s, runCalls available zero calls (.init fmt C zero) = .ok (outs, s) →
      ∃ q, Represents fmt C zero s q ∧ s.swrGetOutSamples = q.items.length ∧
        outs.map (onChannels C) ++ q.items =
          calls.flatMap fun call => inputOf fmt C call.2 := by
  have hagree := runCalls_represents available calls (Represents.init fmt C zero)
    (Nat.zero_le _) hcalls
  refine ⟨hagree, ?_⟩
  intro outs s hs
  rw [hs] at hagree
  rcases hq : runQueue (limit fmt.bytesPerSample C) (memory available fmt.bytesPerSample C)
    (calls.map fun call => (call.1, inputOf fmt C call.2)) .empty with _ | ⟨outs', q⟩
  · rw [hq] at hagree
    exact hagree.elim
  · rw [hq] at hagree
    refine ⟨q, hagree.2, hagree.2.count.trans q.length_eq.symm, ?_⟩
    rw [hagree.1, runQueue_items hq, List.map_map]
    simp [Queue.empty, List.flatMap_def, Function.comp_def]

/-- Three samples of a channel are put in, and two are taken out. -/
theorem runCalls_eq_three :
    ∃ outs s, runCalls (fun _ => true) (0 : ℤ)
        [(0, some (⟨3, fun _ => 0, id⟩, fun _ => 0, 3)), (2, none)] (.init .s16 1 0) =
          .ok (outs, s) ∧ outs.map (fun v => v 0) = [0, 2] := by
  let calls : List (ℕ × Option (AVFrame ℤ × (ℕ → ℤ) × ℕ)) :=
    [(0, some (⟨3, fun _ => 0, id⟩, fun _ => 0, 3)), (2, none)]
  let queue := runQueue (limit 2 1) (memory (fun _ => true) 2 1)
    (calls.map fun call => (call.1, inputOf .s16 1 call.2)) .empty
  have hcalls : ∀ call ∈ calls, FitsInt .s16 1 call.2 := by
    intro call hcall
    rcases List.mem_pair.1 hcall with rfl | rfl <;> exact Nat.le_of_ble_eq_true rfl
  have hagree : SameResult .s16 1 0 (runCalls (fun _ => true) 0 calls (.init .s16 1 0)) queue :=
    (runCalls_eq .s16 1 (0 : ℤ) (fun _ => true) calls hcalls).1
  have hout : queue.map (fun r => r.1.map (· 0)) = some [0, 2] := by decide
  rcases Option.map_eq_some_iff.1 hout with ⟨⟨outs', q⟩, hqueue, hfirst⟩
  rw [hqueue] at hagree
  rcases hagree.exists_ok with ⟨outs, s, hs, hsame, -⟩
  refine ⟨outs, s, hs, ?_⟩
  rw [← hsame, List.map_map] at hfirst
  exact hfirst

end AudioCrash.Swr
