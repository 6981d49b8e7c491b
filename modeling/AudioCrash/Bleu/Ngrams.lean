import AudioCrash.Lib.Loop
import AudioCrash.Lib.RollingKey
import Mathlib.Data.List.Basic
import Mathlib.Data.List.GetD
import Mathlib.Tactic.NormNum

/-!
# The packed n-grams of `bleu.cc`

`ngrams` slides a window over a sequence of `int16_t` tokens and keeps the window packed
in one `int64_t`: shift by 16, add the token, mask. The addition is signed, so a negative
token borrows from the lanes above it. Shifts and additions wrap modulo `2 ^ 64`.

Everything about the keys is read off their residue modulo `2 ^ (16 * min n 4)`, the part
of the word the mask keeps: equal residues give equal keys (`and_makeMask_eq`), and a key
has the residue of the packed window (`toInt_key`).

## Main definitions

* `makeMask`, `shiftIn`, `ngrams` — the source.
* `key w` — the key of a window packed on its own.
* `ngrams_eq` — the rolling keys are the keys of the windows.
* `key_inj` — up to four tokens, equal keys mean equal windows.
-/

namespace AudioCrash.Bleu

open RollingKey

/-- `make_mask`: `n` lanes of 16 set bits. -/
def makeMask (n : ℕ) : Int64 := forLoop 0 n (fun _ mask => (mask <<< 16) + 0xffff) 0

/-- `(v << 16) + token`. -/
def shiftIn (v : Int64) (t : Int16) : Int64 := (v <<< 16) + t.toInt64

/-- One step of the second loop: the next key `v`, and `historys` with `v` pushed. -/
def slide (hypothesis : List Int16) (mask : Int64) (idx : ℕ) (s : Int64 × List Int64) :
    Int64 × List Int64 :=
  let v := shiftIn s.1 (hypothesis.getD idx 0) &&& mask
  (v, s.2 ++ [v])

/-- `ngrams`: the first window, and one more key for each further token. -/
def ngrams (hypothesis : List Int16) (n : ℕ) : List Int64 :=
  if hypothesis.length < n then []
  else
    let mask := makeMask n
    let v := forLoop 0 n (fun idx v => shiftIn v (hypothesis.getD idx 0)) 0
    let v := v &&& mask
    (forLoop n hypothesis.length (slide hypothesis mask) (v, [v])).2

/-- The key of one window packed on its own. -/
def key (w : List Int16) : Int64 := w.foldl shiftIn 0 &&& makeMask w.length

/-! ## What the mask keeps -/

/-- The lanes that fit into the word. -/
def radix (n : ℕ) : ℕ := 2 ^ (16 * min n 4)

theorem radix_dvd (n : ℕ) : (radix n : ℤ) ∣ 2 ^ 64 := by
  have h : radix n ∣ 2 ^ 64 := Nat.pow_dvd_pow 2 (by omega)
  exact_mod_cast h

theorem makeMask_succ (n : ℕ) : makeMask (n + 1) = (makeMask n <<< 16) + 0xffff :=
  forLoop_succ (Nat.zero_le n) _ _

/-- From four lanes on the mask is all ones. -/
theorem makeMask_of_four_le {n : ℕ} (h : 4 ≤ n) : makeMask n = -1 := by
  induction n, h using Nat.le_induction with
  | base => decide
  | succ k _ ih =>
    rw [makeMask_succ, ih]
    decide

theorem toNat_makeMask (n : ℕ) : (makeMask n).toBitVec.toNat = radix n - 1 := by
  by_cases h : 4 ≤ n
  · rw [makeMask_of_four_le h, radix, Nat.min_eq_right h]
    decide
  · have hn : n = 0 ∨ n = 1 ∨ n = 2 ∨ n = 3 := by omega
    rcases hn with rfl | rfl | rfl | rfl <;> decide

theorem toNat_and_makeMask (x : Int64) (n : ℕ) :
    (x &&& makeMask n).toBitVec.toNat = x.toBitVec.toNat % radix n := by
  rw [Int64.toBitVec_and, BitVec.toNat_and, toNat_makeMask, radix, Nat.and_two_pow_sub_one_eq_mod]

/-- The signed value of a word has the residue of its bits. -/
theorem toInt_modEq_toNat (x : Int64) : x.toInt ≡ x.toBitVec.toNat [ZMOD 2 ^ 64] := by
  rw [← Int64.toInt_toBitVec, BitVec.toInt_eq_toNat_bmod]
  exact Int.bmod_emod

/-- The mask keeps the residue. -/
theorem toInt_and_makeMask (x : Int64) (n : ℕ) :
    (x &&& makeMask n).toInt ≡ x.toInt [ZMOD radix n] := by
  have hmask := (toInt_modEq_toNat (x &&& makeMask n)).of_dvd (radix_dvd n)
  have hx := (toInt_modEq_toNat x).of_dvd (radix_dvd n)
  rw [toNat_and_makeMask, Int.natCast_mod] at hmask
  exact hmask.trans ((Int.mod_modEq _ _).trans hx.symm)

/-- The mask forgets everything but the residue. -/
theorem and_makeMask_eq {x y : Int64} {n : ℕ} (h : x.toInt ≡ y.toInt [ZMOD radix n]) :
    x &&& makeMask n = y &&& makeMask n := by
  have hx := (toInt_modEq_toNat x).of_dvd (radix_dvd n)
  have hy := (toInt_modEq_toNat y).of_dvd (radix_dvd n)
  have hnat : x.toBitVec.toNat ≡ y.toBitVec.toNat [MOD radix n] :=
    Int.natCast_modEq_iff.1 (hx.symm.trans (h.trans hy))
  rw [← Int64.toBitVec_inj]
  apply BitVec.eq_of_toNat_eq
  rw [toNat_and_makeMask, toNat_and_makeMask]
  exact hnat

/-! ## Residues of the packed words -/

theorem shiftLeft_sixteen (v : Int64) : v <<< 16 = v * 65536 := by
  have hamount : (16#64).smod 64 = 16#64 := by decide
  rw [← Int64.toBitVec_inj, Int64.toBitVec_shiftLeft, Int64.toBitVec_mul]
  change v.toBitVec <<< (16#64).smod 64 = v.toBitVec * 65536#64
  rw [hamount]
  apply BitVec.eq_of_toNat_eq
  simp [Nat.shiftLeft_eq]

/-- One step of the packing, with both wrap-arounds. -/
theorem toInt_shiftIn (v : Int64) (t : Int16) :
    (shiftIn v t).toInt ≡ v.toInt * 2 ^ 16 + t.toInt [ZMOD 2 ^ 64] := by
  have hmul : (v * 65536).toInt ≡ v.toInt * 2 ^ 16 [ZMOD 2 ^ 64] := by
    rw [Int64.toInt_mul]
    exact Int.bmod_emod
  have hadd : (v * 65536 + t.toInt64).toInt ≡ (v * 65536).toInt + t.toInt [ZMOD 2 ^ 64] := by
    rw [Int64.toInt_add, Int16.toInt_toInt64]
    exact Int.bmod_emod
  rw [shiftIn, shiftLeft_sixteen]
  exact hadd.trans (hmul.add_right _)

/-- The digits of a window. -/
def digits (w : List Int16) : List ℤ := w.map Int16.toInt

@[simp] theorem length_digits (w : List Int16) : (digits w).length = w.length := by
  simp [digits]

/-- The packing loop computes the packed value modulo the word. -/
theorem toInt_foldl_shiftIn (w : List Int16) :
    (w.foldl shiftIn 0).toInt ≡ pack (2 ^ 16) (digits w) [ZMOD 2 ^ 64] := by
  induction w using List.reverseRecOn with
  | nil => exact Int.ModEq.refl _
  | append_singleton w t ih =>
    have hdigits : digits (w ++ [t]) = digits w ++ [t.toInt] := by simp [digits]
    rw [List.foldl_append, hdigits, pack_concat]
    exact (toInt_shiftIn _ t).trans ((ih.mul_right _).add_right _)

/-- A key has the residue of its window. -/
theorem toInt_key (w : List Int16) :
    (key w).toInt ≡ pack (2 ^ 16) (digits w) [ZMOD radix w.length] :=
  (toInt_and_makeMask _ _).trans ((toInt_foldl_shiftIn w).of_dvd (radix_dvd _))

/-! ## The rolling keys -/

theorem radix_dvd_place (n : ℕ) : (radix (n + 1) : ℤ) ∣ (2 ^ 16) ^ n * 2 ^ 16 := by
  have h : radix (n + 1) ∣ (2 ^ 16) ^ n * 2 ^ 16 := by
    rw [← pow_succ, ← pow_mul, radix]
    exact Nat.pow_dvd_pow 2 (by omega)
  exact_mod_cast h

/-- **Sliding the window rolls the key**: the token that leaves it has no trace left. -/
theorem shiftIn_key {w : List Int16} {n : ℕ} (hn : w.length = n + 1) (t : Int16) :
    shiftIn (key w) t &&& makeMask (n + 1) = key (w.tail ++ [t]) := by
  have hlen : (w.tail ++ [t]).length = n + 1 := by simp [hn]
  have hdigits : digits (w.tail ++ [t]) = (digits w).tail ++ [t.toInt] := by
    simp [digits, List.map_tail]
  have hkey := toInt_key w
  rw [hn] at hkey
  have hroll : (shiftIn (key w) t).toInt ≡
      pack (2 ^ 16) (digits w) * 2 ^ 16 + t.toInt [ZMOD radix (n + 1)] :=
    ((toInt_shiftIn _ t).of_dvd (radix_dvd _)).trans ((hkey.mul_right _).add_right _)
  have hnext := pack_tail_modEq (w := digits w) (by simpa using hn) (radix_dvd_place n) t.toInt
  have hpack := ((toInt_foldl_shiftIn (w.tail ++ [t])).of_dvd (radix_dvd (n + 1)))
  rw [hdigits] at hpack
  have hkeyNext : key (w.tail ++ [t]) = (w.tail ++ [t]).foldl shiftIn 0 &&& makeMask (n + 1) := by
    rw [key, hlen]
  rw [hkeyNext]
  exact and_makeMask_eq (hroll.trans (hnext.symm.trans hpack.symm))

/-- The loop over the first `n` tokens packs the first window. -/
theorem forLoop_shiftIn {l : List Int16} {n : ℕ} (hn : n ≤ l.length) :
    forLoop 0 n (fun idx v => shiftIn v (l.getD idx 0)) 0 = (l.take n).foldl shiftIn 0 := by
  refine forLoop_induction (Nat.zero_le n) (fun idx v => shiftIn v (l.getD idx 0)) 0
    (fun k v => v = (l.take k).foldl shiftIn 0) rfl ?_
  intro i v _ hi hv
  have hlt : i < l.length := by omega
  have htake : l.take (i + 1) = l.take i ++ [l[i]] := by simp
  rw [htake, List.foldl_append, ← hv, List.getD_eq_getElem l 0 hlt]
  rfl

/-- Sliding the window that ends in front of `idx` over the token at `idx`. -/
theorem shiftIn_key_window {l : List Int16} {m idx : ℕ} (hlo : m + 1 ≤ idx) (hhi : idx < l.length) :
    shiftIn (key (window (m + 1) (idx - (m + 1)) l)) (l.getD idx 0) &&& makeMask (m + 1) =
      key (window (m + 1) (idx - (m + 1) + 1) l) := by
  have hlast : idx - (m + 1) + (m + 1) = idx := by omega
  have hlen : (window (m + 1) (idx - (m + 1)) l).length = m + 1 := length_window (by omega)
  rw [window_succ (by omega), shiftIn_key hlen, List.getD_eq_getElem l 0 hhi]
  simp only [hlast]

/-- **The keys `ngrams` produces are the keys of the windows, each packed on its own.** -/
theorem ngrams_eq (l : List Int16) {n : ℕ} (hn : 1 ≤ n) :
    ngrams l n = (windows n l).map key := by
  rcases Nat.exists_eq_add_of_le' hn with ⟨m, rfl⟩
  by_cases hshort : l.length < m + 1
  · rw [ngrams, if_pos hshort, windows_eq_nil hshort, List.map_nil]
  have hle : m + 1 ≤ l.length := by omega
  have hfirst :
      (l.take (m + 1)).foldl shiftIn 0 &&& makeMask (m + 1) = key (window (m + 1) 0 l) := by
    rw [key, window_zero, List.length_take, Nat.min_eq_left hle]
  -- when `idx` tokens are read, the keys so far are those of the windows that end there
  have key_loop := forLoop_induction hle (slide l (makeMask (m + 1)))
    (key (window (m + 1) 0 l), [key (window (m + 1) 0 l)])
    (fun idx s => s.1 = key (window (m + 1) (idx - (m + 1)) l) ∧
      s.2 = (List.range (idx + 1 - (m + 1))).map fun k => key (window (m + 1) k l))
    ⟨by simp, by simp⟩ ?step
  · rw [ngrams, if_neg hshort]
    dsimp only
    rw [forLoop_shiftIn hle, hfirst, key_loop.2, windows, List.map_map]
    rfl
  case step =>
    rintro idx ⟨v, hs⟩ hlo hhi ⟨hv, hhs⟩
    have hroll := shiftIn_key_window hlo hhi
    rw [← hv] at hroll
    have hidx : idx + 1 - (m + 1) = idx - (m + 1) + 1 := by omega
    have hcount : idx + 1 + 1 - (m + 1) = (idx + 1 - (m + 1)) + 1 := by omega
    refine ⟨by rw [hidx]; exact hroll, ?_⟩
    rw [hcount, List.range_succ, List.map_append, ← hhs, hidx]
    simp only [slide, hroll, List.map_cons, List.map_nil]

/-! ## Equal keys -/

theorem digit_eq {x y : ℤ} (hx : x ∈ {t : ℤ | -2 ^ 15 ≤ t ∧ t < 2 ^ 15})
    (hy : y ∈ {t : ℤ | -2 ^ 15 ≤ t ∧ t < 2 ^ 15}) (h : x ≡ y [ZMOD 2 ^ 16]) : x = y := by
  rcases hx with ⟨hx1, hx2⟩
  rcases hy with ⟨hy1, hy2⟩
  have hmod : x % 65536 = y % 65536 := h
  omega

theorem digits_mem (w : List Int16) :
    ∀ x ∈ digits w, x ∈ {t : ℤ | -2 ^ 15 ≤ t ∧ t < 2 ^ 15} := by
  intro x hx
  rcases List.mem_map.1 hx with ⟨t, -, rfl⟩
  exact ⟨t.le_toInt, t.toInt_lt⟩

theorem digits_injective : Function.Injective digits :=
  List.map_injective_iff.2 fun _ _ h => Int16.toInt_inj.1 h

/-- Whatever the order, a key tells the last token of its window. -/
theorem last_eq_of_key {w w' : List Int16} {t t' : Int16}
    (h : key (w ++ [t]) = key (w' ++ [t'])) : t = t' := by
  have hradix : ∀ (w : List Int16) (t : Int16), (2 ^ 16 : ℤ) ∣ radix (w ++ [t]).length := by
    intro w t
    have hdvd : 2 ^ 16 ∣ radix (w ++ [t]).length := by
      rw [List.length_append, List.length_singleton, radix]
      exact Nat.pow_dvd_pow 2 (by omega)
    exact_mod_cast hdvd
  have hlast : ∀ (w : List Int16) (t : Int16), (key (w ++ [t])).toInt ≡ t.toInt [ZMOD 2 ^ 16] := by
    intro w t
    have hkey := (toInt_key (w ++ [t])).of_dvd (hradix w t)
    rw [digits, List.map_append, List.map_singleton, pack_concat] at hkey
    have hzero : pack (2 ^ 16) (w.map Int16.toInt) * 2 ^ 16 ≡ 0 [ZMOD 2 ^ 16] :=
      Int.modEq_zero_iff_dvd.2 (dvd_mul_left _ _)
    simpa using hkey.trans (hzero.add_right t.toInt)
  have hmod := (hlast w t).symm.trans (h ▸ hlast w' t')
  exact Int16.toInt_inj.1 (digit_eq ⟨t.le_toInt, t.toInt_lt⟩ ⟨t'.le_toInt, t'.toInt_lt⟩ hmod)

/-- **Up to four tokens, equal keys mean equal windows**, whatever the signs. -/
theorem key_inj {w w' : List Int16} {n : ℕ} (hn : n ≤ 4) (hw : w.length = n)
    (hw' : w'.length = n) : key w = key w' ↔ w = w' := by
  constructor
  · intro h
    have hradix : (radix n : ℤ) = (2 ^ 16) ^ n := by
      rw [radix, Nat.min_eq_left hn, pow_mul]
      norm_cast
    have hmod := toInt_key w
    have hmod' := toInt_key w'
    rw [hw, hradix] at hmod
    rw [hw', hradix, ← h] at hmod'
    refine digits_injective (pack_injective (B := 2 ^ 16) (by norm_num)
      (fun x hx y hy hxy => digit_eq hx hy hxy) (by simp [hw, hw']) (digits_mem w) (digits_mem w')
      ?_)
    rw [length_digits, hw]
    exact hmod.symm.trans hmod'
  · rintro rfl
    rfl

end AudioCrash.Bleu
