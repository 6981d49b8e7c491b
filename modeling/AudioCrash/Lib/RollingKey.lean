import Mathlib.Data.Int.ModEq
import Mathlib.Data.List.Induction
import Mathlib.Tactic.Ring

/-!
# Packed windows

A window of digits packs into one integer, most significant digit first. Digits may
be negative: a negative digit borrows from the places above it, so the packed value
is read modulo a power of the base. `pack_injective` says that nothing is lost as
long as the digits of a place are told apart by their residues.

Sliding a window by one drops its first digit, which a modulus dividing the right
power of the base does not see (`pack_tail_modEq`): that is all a rolling key needs.

## Main definitions

* `pack B w` — the value of the digits `w` in base `B`.
* `windows n l` — the contiguous windows of length `n`, from left to right.
-/

namespace AudioCrash.RollingKey

universe u
variable {α : Type u}

/-! ## Packing -/

/-- The value of a list of digits in base `B`, most significant first. -/
def pack (B : ℤ) (w : List ℤ) : ℤ := w.foldl (fun v t => v * B + t) 0

theorem pack_concat (B : ℤ) (w : List ℤ) (t : ℤ) :
    pack B (w ++ [t]) = pack B w * B + t := by
  simp [pack, List.foldl_append]

theorem pack_cons (B : ℤ) (t : ℤ) (w : List ℤ) :
    pack B (t :: w) = t * B ^ w.length + pack B w := by
  induction w using List.reverseRecOn with
  | nil => simp [pack]
  | append_singleton w x ih =>
    rw [← List.cons_append, pack_concat, pack_concat, ih, List.length_append, List.length_singleton,
      pow_succ]
    ring

/-- A modulus that divides the place of the first digit does not see the digit. -/
theorem pack_tail_modEq {B M : ℤ} {w : List ℤ} {n : ℕ} (hn : w.length = n + 1)
    (hM : M ∣ B ^ n * B) (t : ℤ) :
    pack B (w.tail ++ [t]) ≡ pack B w * B + t [ZMOD M] := by
  rw [pack_concat]
  cases w with
  | nil => simp at hn
  | cons x w =>
    have hlen : w.length = n := by simpa using hn
    rw [List.tail_cons, pack_cons, hlen, add_mul]
    have hzero : x * B ^ n * B ≡ 0 [ZMOD M] := by
      rw [mul_assoc]
      exact Int.modEq_zero_iff_dvd.2 (hM.mul_left x)
    simpa using ((hzero.add_right (pack B w * B)).add_right t).symm

/-- **Packing is injective modulo the full power of the base**, on digits that their
residues tell apart. -/
theorem pack_injective {B : ℤ} (hB : B ≠ 0) {S : Set ℤ}
    (hS : ∀ x ∈ S, ∀ y ∈ S, x ≡ y [ZMOD B] → x = y) {w w' : List ℤ}
    (hlen : w.length = w'.length) (hw : ∀ x ∈ w, x ∈ S) (hw' : ∀ x ∈ w', x ∈ S)
    (h : pack B w ≡ pack B w' [ZMOD B ^ w.length]) : w = w' := by
  induction w using List.reverseRecOn generalizing w' with
  | nil => exact (List.length_eq_zero_iff.1 hlen.symm).symm
  | append_singleton w t ih =>
    rcases List.eq_nil_or_concat w' with rfl | ⟨w', t', rfl⟩
    · simp at hlen
    rw [List.concat_eq_append] at *
    rw [pack_concat, pack_concat, List.length_append, List.length_singleton, pow_succ] at h
    -- the last digits agree modulo the base, hence agree
    have hlast : pack B w * B + t ≡ pack B w' * B + t' [ZMOD B] := h.of_mul_left (B ^ w.length)
    have hdigit : t ≡ t' [ZMOD B] := by
      have h0 : ∀ x : ℤ, x * B ≡ 0 [ZMOD B] := by
        intro x
        exact Int.modEq_zero_iff_dvd.2 (dvd_mul_left B x)
      simpa using ((h0 (pack B w)).add_right t).symm.trans
        (hlast.trans ((h0 (pack B w')).add_right t'))
    have ht : t = t' := hS t (hw t (by simp)) t' (hw' t' (by simp)) hdigit
    subst ht
    -- the rest agrees once the base is cancelled
    have hrest : pack B w ≡ pack B w' [ZMOD B ^ w.length] :=
      Int.ModEq.mul_right_cancel' hB (Int.ModEq.add_right_cancel' t h)
    have hw0 : ∀ x ∈ w, x ∈ S := by intro x hx; exact hw x (by simp [hx])
    have hw0' : ∀ x ∈ w', x ∈ S := by intro x hx; exact hw' x (by simp [hx])
    rw [ih (by simpa using hlen) hw0 hw0' hrest]

/-! ## Windows -/

/-- The window of length `n` at position `k`. -/
def window (n k : ℕ) (l : List α) : List α := (l.drop k).take n

/-- The contiguous windows of length `n`; none when the list is shorter. -/
def windows (n : ℕ) (l : List α) : List (List α) :=
  (List.range (l.length + 1 - n)).map fun k => window n k l

@[simp] theorem length_windows (n : ℕ) (l : List α) :
    (windows n l).length = l.length + 1 - n := by simp [windows]

theorem windows_eq_nil {n : ℕ} {l : List α} (h : l.length < n) : windows n l = [] := by
  simp [windows, Nat.sub_eq_zero_of_le (Nat.succ_le_of_lt h)]

theorem length_window {n k : ℕ} {l : List α} (h : k + n ≤ l.length) :
    (window n k l).length = n := by
  simp only [window, List.length_take, List.length_drop]
  omega

theorem length_of_mem_windows {n : ℕ} {l g : List α} (h : g ∈ windows n l) : g.length = n := by
  simp only [windows, List.mem_map, List.mem_range] at h
  rcases h with ⟨k, hk, rfl⟩
  exact length_window (by omega)

/-- The digits of a window are those of the list. -/
theorem mem_of_mem_windows {n : ℕ} {l g : List α} (h : g ∈ windows n l) {x : α} (hx : x ∈ g) :
    x ∈ l := by
  simp only [windows, List.mem_map] at h
  rcases h with ⟨k, _, rfl⟩
  exact List.mem_of_mem_drop (List.mem_of_mem_take hx)

/-- Every digit is a window. -/
theorem singleton_mem_windows {l : List α} {x : α} (h : x ∈ l) : [x] ∈ windows 1 l := by
  rcases List.getElem_of_mem h with ⟨k, hk, rfl⟩
  refine List.mem_map.2 ⟨k, List.mem_range.2 (by omega), ?_⟩
  rw [window, List.drop_eq_getElem_cons hk]
  rfl

/-- The first window of a list that is long enough. -/
theorem window_zero (n : ℕ) (l : List α) : window n 0 l = l.take n := by simp [window]

/-- The next window drops the first digit and takes one more. -/
theorem window_succ {n k : ℕ} {l : List α} (h : k + (n + 1) < l.length) :
    window (n + 1) (k + 1) l = (window (n + 1) k l).tail ++ [l[k + (n + 1)]] := by
  have hk : k < l.length := by omega
  have hhead : window (n + 1) k l = l[k] :: window n (k + 1) l := by
    rw [window, List.drop_eq_getElem_cons hk, List.take_succ_cons, window]
  rw [hhead, List.tail_cons, window, List.take_add_one, window]
  have hget : (l.drop (k + 1))[n]? = some l[k + (n + 1)] := by
    rw [List.getElem?_drop, List.getElem?_eq_getElem (by omega)]
    congr 2
    omega
  rw [hget]
  rfl

end AudioCrash.RollingKey
