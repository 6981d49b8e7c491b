import Mathlib.Tactic.Common
import Mathlib.Order.Nat

/-!
# Counted loops, loops over a list, and early returns

The loops of a C function come in three shapes, and each has one invariant rule.

`forLoop lo hi body` is `for (int i = lo; i < hi; ++i)`: it always ends, and its
body cannot leave the function.

A body that can leave the function from the middle of a loop is a `Flow`: it goes
on with a state, or returns a result, or is still running when the fuel of an
unbounded loop is spent. `forEach` and `forEachWhile` are loops driven by a list,
`whileLoop` is the loop driven by its condition alone, and is the only one that
can hang.

`Flow.Holds P Q` is the partial-correctness triple: `P` of every state gone on
with, `Q` of every returned result.

## Main definitions

* `forLoop`, `forLoop_induction` — the counted loop and its invariant.
* `Flow`, `Flow.bind`, `Flow.bind_eq_ret_iff` — early returns, and where a function is left.
* `Flow.forEach`, `Flow.forEachWhile`, `Flow.whileLoop` — loops whose body may return.
* `Flow.Holds`, `Flow.holds_forEach`, `Flow.holds_whileLoop` — the rules.
* `Flow.whileLoop_ne_hang` — a decreasing measure bounds the fuel.
* `Flow.Ends` — the triple for a statement that comes to an end.
* `Flow.Reaches` — the states at the head of a loop over a list.
* `Flow.Tracks` — where a function goes on, compared with one that is not left.
-/

namespace AudioCrash

universe u v w
variable {σ : Type u} {α : Type u} {ρ : Type v} {β : Type w}

/-! ## The counted loop -/

/-- `for (int i = lo; i < hi; ++i) body(i)`, threading a state. -/
def forLoop (lo hi : ℕ) (body : ℕ → σ → σ) (s : σ) : σ :=
  (List.range' lo (hi - lo)).foldl (fun s i => body i s) s

@[simp] theorem forLoop_of_le {lo hi : ℕ} (h : hi ≤ lo) (body : ℕ → σ → σ) (s : σ) :
    forLoop lo hi body s = s := by
  simp [forLoop, Nat.sub_eq_zero_of_le h]

/-- The last iteration of a counted loop. -/
theorem forLoop_succ {lo hi : ℕ} (h : lo ≤ hi) (body : ℕ → σ → σ) (s : σ) :
    forLoop lo (hi + 1) body s = body hi (forLoop lo hi body s) := by
  have hlen : hi + 1 - lo = (hi - lo) + 1 := by omega
  have hlast : lo + (hi - lo) = hi := by omega
  simp [forLoop, hlen, List.range'_concat, List.foldl_append, hlast]

/-- **The invariant rule of the counted loop.** -/
theorem forLoop_induction {lo hi : ℕ} (h : lo ≤ hi) (body : ℕ → σ → σ) (s : σ)
    (P : ℕ → σ → Prop) (h0 : P lo s)
    (hstep : ∀ i s, lo ≤ i → i < hi → P i s → P (i + 1) (body i s)) :
    P hi (forLoop lo hi body s) := by
  induction hi, h using Nat.le_induction with
  | base => simpa using h0
  | succ k hk ih =>
    rw [forLoop_succ hk]
    exact hstep k _ hk (Nat.lt_succ_self k)
      (ih fun i s hlo hi => hstep i s hlo (Nat.lt_succ_of_lt hi))

/-- Loops whose bodies do the same do the same. -/
theorem forLoop_congr {lo hi : ℕ} {body body' : ℕ → σ → σ}
    (h : ∀ i, lo ≤ i → i < hi → body i = body' i) (s : σ) :
    forLoop lo hi body s = forLoop lo hi body' s := by
  rcases Nat.lt_or_ge hi lo with hlt | hle
  · rw [forLoop_of_le hlt.le, forLoop_of_le hlt.le]
  · refine forLoop_induction hle body s (fun k s' => k ≤ hi → s' = forLoop lo k body' s)
      (fun _ => (forLoop_of_le le_rfl body' s).symm) ?_ le_rfl
    intro i s' hlo hlt hs' _
    rw [hs' hlt.le, forLoop_succ hlo, h i hlo hlt]

/-! ## Early returns -/

/-- What a statement does: go on with a state, return from the function, or still
run when the fuel is spent. -/
inductive Flow (ρ : Type v) (α : Type u) where
  | next (a : α)
  | ret (r : ρ)
  | hang
  deriving DecidableEq, Repr

namespace Flow

/-- Run the rest of the function unless it has been left. -/
def bind (x : Flow ρ α) (f : α → Flow ρ σ) : Flow ρ σ :=
  match x with
  | next a => f a
  | ret r => ret r
  | hang => hang

@[simp] theorem bind_next (a : α) (f : α → Flow ρ σ) : (next a).bind f = f a := rfl
@[simp] theorem bind_ret (r : ρ) (f : α → Flow ρ σ) : (ret r).bind f = ret r := rfl
@[simp] theorem bind_hang (f : α → Flow ρ σ) : (hang : Flow ρ α).bind f = hang := rfl

theorem bind_assoc {τ : Type u} (x : Flow ρ α) (f : α → Flow ρ σ) (g : σ → Flow ρ τ) :
    (x.bind f).bind g = x.bind fun a => (f a).bind g := by
  cases x <;> rfl

/-- What goes on has gone through both parts. -/
theorem bind_eq_next_iff {x : Flow ρ α} {f : α → Flow ρ σ} {b : σ} :
    x.bind f = next b ↔ ∃ a, x = next a ∧ f a = next b := by
  cases x with
  | next a => simp
  | ret r => simp
  | hang => simp

/-- What is left is left in the first part or in the second. -/
theorem bind_eq_ret_iff {x : Flow ρ α} {f : α → Flow ρ σ} {r : ρ} :
    x.bind f = ret r ↔ x = ret r ∨ ∃ a, x = next a ∧ f a = ret r := by
  cases x with
  | next a => simp
  | ret r' => simp
  | hang => simp

/-- `for (x : xs) body(x)`, where the body may return. -/
def forEach (body : β → α → Flow ρ α) : List β → α → Flow ρ α
  | [], a => next a
  | b :: bs, a => (body b a).bind (forEach body bs)

/-- `while (cond && read(x)) body(x)`, where `read` takes the next element of a list. -/
def forEachWhile (cond : α → Bool) (body : β → α → Flow ρ α) : List β → α → Flow ρ α
  | [], a => next a
  | b :: bs, a => if cond a then (body b a).bind (forEachWhile cond body bs) else next a

/-- `while (cond) body`, for at most `fuel` iterations. -/
def whileLoop (cond : α → Bool) (body : α → Flow ρ α) : ℕ → α → Flow ρ α
  | 0, a => if cond a then hang else next a
  | fuel + 1, a => if cond a then (body a).bind (whileLoop cond body fuel) else next a

@[simp] theorem forEach_nil (body : β → α → Flow ρ α) (a : α) :
    forEach body [] a = next a := rfl
@[simp] theorem forEach_cons (body : β → α → Flow ρ α) (b : β) (bs : List β) (a : α) :
    forEach body (b :: bs) a = (body b a).bind (forEach body bs) := rfl

theorem whileLoop_of_not {cond : α → Bool} {body : α → Flow ρ α} {a : α}
    (h : cond a = false) (fuel : ℕ) : whileLoop cond body fuel a = next a := by
  cases fuel <;> simp [whileLoop, h]

theorem whileLoop_succ {cond : α → Bool} {body : α → Flow ρ α} {a : α}
    (h : cond a = true) (fuel : ℕ) :
    whileLoop cond body (fuel + 1) a = (body a).bind (whileLoop cond body fuel) := by
  simp [whileLoop, h]

/-! ## Partial correctness -/

/-- `P` holds of the state gone on with, `Q` of the result returned. -/
def Holds (P : α → Prop) (Q : ρ → Prop) : Flow ρ α → Prop
  | next a => P a
  | ret r => Q r
  | hang => True

@[simp] theorem holds_next {P : α → Prop} {Q : ρ → Prop} (a : α) :
    Holds P Q (next a) ↔ P a := Iff.rfl
@[simp] theorem holds_ret {P : α → Prop} {Q : ρ → Prop} (r : ρ) :
    Holds P Q (ret r : Flow ρ α) ↔ Q r := Iff.rfl
@[simp] theorem holds_hang {P : α → Prop} {Q : ρ → Prop} :
    Holds P Q (hang : Flow ρ α) ↔ True := Iff.rfl

/-- Consequence. -/
theorem Holds.imp {P P' : α → Prop} {Q Q' : ρ → Prop} {x : Flow ρ α} (h : Holds P Q x)
    (hP : ∀ a, P a → P' a) (hQ : ∀ r, Q r → Q' r) : Holds P' Q' x := by
  cases x with
  | next a => exact hP a h
  | ret r => exact hQ r h
  | hang => trivial

theorem Holds.imp_next {P P' : α → Prop} {Q : ρ → Prop} {x : Flow ρ α} (h : Holds P Q x)
    (hP : ∀ a, P a → P' a) : Holds P' Q x := h.imp hP fun _ hr => hr

theorem Holds.imp_ret {P : α → Prop} {Q Q' : ρ → Prop} {x : Flow ρ α} (h : Holds P Q x)
    (hQ : ∀ r, Q r → Q' r) : Holds P Q' x := h.imp (fun _ ha => ha) hQ

/-- Two triples at once. -/
theorem Holds.and {P P' : α → Prop} {Q Q' : ρ → Prop} {x : Flow ρ α} (h : Holds P Q x)
    (h' : Holds P' Q' x) : Holds (fun a => P a ∧ P' a) (fun r => Q r ∧ Q' r) x := by
  cases x with
  | next a => exact ⟨h, h'⟩
  | ret r => exact ⟨h, h'⟩
  | hang => trivial

/-- Sequencing. -/
theorem Holds.bind {P : α → Prop} {P' : σ → Prop} {Q : ρ → Prop} {x : Flow ρ α}
    {f : α → Flow ρ σ} (h : Holds P Q x) (hf : ∀ a, P a → Holds P' Q (f a)) :
    Holds P' Q (x.bind f) := by
  cases x with
  | next a => exact hf a h
  | ret r => exact h
  | hang => trivial

/-- **The invariant rule of a loop over a list**: the invariant may mention the elements
already gone through, and a step knows the elements that are left. -/
theorem holds_forEach {body : β → α → Flow ρ α} {Q : ρ → Prop}
    (P : List β → α → Prop) (bs : List β) {d : List β} {a : α} (h0 : P d a)
    (hstep : ∀ d' b rest a, d ++ bs = d' ++ b :: rest → P d' a →
      Holds (P (d' ++ [b])) Q (body b a)) :
    Holds (P (d ++ bs)) Q (forEach body bs a) := by
  induction bs generalizing d a with
  | nil => simpa using h0
  | cons b bs ih =>
    have hsplit : d ++ b :: bs = d ++ [b] ++ bs := by simp
    rw [forEach_cons, hsplit]
    refine (hstep d b bs a rfl h0).bind fun a' ha' => ih ha' ?_
    intro d' b' rest a'' heq
    exact hstep d' b' rest a'' (hsplit.trans heq)

/-- An invariant that does not mention the elements. -/
theorem holds_forEach_const {body : β → α → Flow ρ α} {Q : ρ → Prop} {P : α → Prop}
    (bs : List β) {a : α} (h0 : P a) (hstep : ∀ b a, P a → Holds P Q (body b a)) :
    Holds P Q (forEach body bs a) :=
  holds_forEach (fun _ => P) bs (d := []) h0 fun _ b _ a _ h => hstep b a h

/-- The invariant rule of `for (int i = 0; i < n; ++i)`, where the body may return. -/
theorem holds_forEach_range {body : ℕ → α → Flow ρ α} {Q : ρ → Prop} (P : ℕ → α → Prop) (n : ℕ)
    {a : α} (h0 : P 0 a) (hstep : ∀ i < n, ∀ a, P i a → Holds (P (i + 1)) Q (body i a)) :
    Holds (P n) Q (forEach body (List.range n) a) := by
  have hloop : Holds (fun a => P ([] ++ List.range n).length a) Q
      (forEach body (List.range n) a) := by
    refine holds_forEach (fun d a => P d.length a) (List.range n) (d := []) h0 ?_
    intro d i rest a hsplit ha
    rw [List.nil_append] at hsplit
    have hlt : d.length < n := by
      have hlen := congrArg List.length hsplit
      simp only [List.length_range, List.length_append, List.length_cons] at hlen
      omega
    have hi : i = d.length := by
      have hget := congrArg (fun l => l[d.length]?) hsplit
      simpa [hlt] using hget.symm
    rw [hi, List.length_append, List.length_singleton]
    exact hstep d.length hlt a ha
  simpa using hloop

/-- The invariant rule of a loop over a list that its condition may end early. -/
theorem holds_forEachWhile {cond : α → Bool} {body : β → α → Flow ρ α} {Q : ρ → Prop}
    (P : List β → α → Prop) (bs : List β) {d : List β} {a : α} (h0 : P d a)
    (hstep : ∀ d' b rest a, d ++ bs = d' ++ b :: rest → cond a = true → P d' a →
      Holds (P (d' ++ [b])) Q (body b a)) :
    Holds (fun a' => ∃ done rest, d ++ bs = done ++ rest ∧ P done a' ∧
      (rest = [] ∨ cond a' = false)) Q (forEachWhile cond body bs a) := by
  induction bs generalizing d a with
  | nil => exact ⟨d, [], rfl, h0, Or.inl rfl⟩
  | cons b bs ih =>
    have hsplit : d ++ b :: bs = d ++ [b] ++ bs := by simp
    by_cases hc : cond a = true
    · simp only [forEachWhile, hc, if_true]
      rw [hsplit]
      refine (hstep d b bs a rfl hc h0).bind fun a' ha' => ih ha' ?_
      intro d' b' rest a'' heq
      exact hstep d' b' rest a'' (hsplit.trans heq)
    · simp only [forEachWhile, hc]
      exact ⟨d, b :: bs, rfl, h0, Or.inr (by simpa using hc)⟩

/-- **The invariant rule of the unbounded loop.** -/
theorem holds_whileLoop {cond : α → Bool} {body : α → Flow ρ α} {Q : ρ → Prop}
    (P : α → Prop) (fuel : ℕ) {a : α} (h0 : P a)
    (hstep : ∀ a, cond a = true → P a → Holds P Q (body a)) :
    Holds (fun a => P a ∧ cond a = false) Q (whileLoop cond body fuel a) := by
  induction fuel generalizing a with
  | zero =>
    by_cases hc : cond a = true
    · simp [whileLoop, hc]
    · simp [whileLoop, hc, h0]
  | succ fuel ih =>
    by_cases hc : cond a = true
    · rw [whileLoop_succ hc]
      exact (hstep a hc h0).bind fun a' ha' => ih ha'
    · rw [whileLoop_of_not (by simpa using hc)]
      exact ⟨h0, by simpa using hc⟩

/-! ## Termination -/

theorem next_ne_hang (a : α) : (next a : Flow ρ α) ≠ hang := by simp

theorem ret_ne_hang (r : ρ) : (ret r : Flow ρ α) ≠ hang := by simp

theorem bind_ne_hang {x : Flow ρ α} {f : α → Flow ρ σ} (hx : x ≠ hang)
    (hf : ∀ a, x = next a → f a ≠ hang) : x.bind f ≠ hang := by
  cases x with
  | next a => exact hf a rfl
  | ret r => simp
  | hang => exact absurd rfl hx

theorem forEach_ne_hang {body : β → α → Flow ρ α} (bs : List β) (a : α)
    (h : ∀ b a, body b a ≠ hang) : forEach body bs a ≠ hang := by
  induction bs generalizing a with
  | nil => simp
  | cons b bs ih => exact bind_ne_hang (h b a) fun a' _ => ih a'

theorem forEachWhile_ne_hang {cond : α → Bool} {body : β → α → Flow ρ α} (bs : List β) (a : α)
    (h : ∀ b a, body b a ≠ hang) : forEachWhile cond body bs a ≠ hang := by
  induction bs generalizing a with
  | nil => simp [forEachWhile]
  | cons b bs ih =>
    simp only [forEachWhile]
    split_ifs
    · exact bind_ne_hang (h b a) fun a' _ => ih a'
    · simp

/-- **A measure that every iteration decreases is enough fuel.** -/
theorem whileLoop_ne_hang {cond : α → Bool} {body : α → Flow ρ α} (μ : α → ℕ)
    (hbody : ∀ a, cond a = true → body a ≠ hang)
    (hdec : ∀ a a', cond a = true → body a = next a' → μ a' < μ a) :
    ∀ fuel a, μ a < fuel → whileLoop cond body fuel a ≠ hang := by
  intro fuel
  induction fuel with
  | zero => intro a ha; omega
  | succ fuel ih =>
    intro a ha
    by_cases hc : cond a = true
    · rw [whileLoop_succ hc]
      refine bind_ne_hang (hbody a hc) fun a' hb => ih a' ?_
      have := hdec a a' hc hb
      omega
    · simp [whileLoop_of_not (by simpa using hc : cond a = false)]

/-- A function whose end is never reached returns a result, when it comes to an end. -/
theorem Holds.exists_ret {Q : ρ → Prop} {x : Flow ρ α} (h : Holds (fun _ => False) Q x)
    (hends : x ≠ hang) : ∃ r, x = ret r ∧ Q r := by
  cases x with
  | next a => exact h.elim
  | ret r => exact ⟨r, rfl, h⟩
  | hang => exact absurd rfl hends

/-- The statement comes to an end, and `P` holds of what it goes on with, `Q` of what it
returns. -/
def Ends (P : α → Prop) (Q : ρ → Prop) : Flow ρ α → Prop
  | next a => P a
  | ret r => Q r
  | hang => False

section ends
variable {P : α → Prop} {P' : σ → Prop} {Q : ρ → Prop}

theorem Ends.bind {x : Flow ρ α} {f : α → Flow ρ σ} (h : Ends P Q x)
    (hf : ∀ a, P a → Ends P' Q (f a)) : Ends P' Q (x.bind f) := by
  cases x with
  | next a => exact hf a h
  | ret r => exact h
  | hang => exact h.elim

theorem Ends.imp {P₁ : α → Prop} {Q₁ : ρ → Prop} {x : Flow ρ α} (h : Ends P Q x)
    (hP : ∀ a, P a → P₁ a) (hQ : ∀ r, Q r → Q₁ r) : Ends P₁ Q₁ x := by
  cases x with
  | next a => exact hP a h
  | ret r => exact hQ r h
  | hang => exact h.elim

theorem ends_forEach {body : β → α → Flow ρ α} (bs : List β) {a : α} (h0 : P a)
    (hstep : ∀ b a, P a → Ends P Q (body b a)) : Ends P Q (forEach body bs a) := by
  induction bs generalizing a with
  | nil => exact h0
  | cons b bs ih => exact (hstep b a h0).bind fun a' ha' => ih ha'

theorem ends_forEachWhile {cond : α → Bool} {body : β → α → Flow ρ α} (bs : List β) {a : α}
    (h0 : P a) (hstep : ∀ b a, P a → Ends P Q (body b a)) :
    Ends P Q (forEachWhile cond body bs a) := by
  induction bs generalizing a with
  | nil => exact h0
  | cons b bs ih =>
    rw [forEachWhile]
    split_ifs
    · exact (hstep b a h0).bind fun a' ha' => ih ha'
    · exact h0

/-- A function whose end is never reached returns. -/
theorem Ends.exists_ret {x : Flow ρ α} (h : Ends (fun _ => False) Q x) : ∃ r, x = ret r ∧ Q r := by
  cases x with
  | next a => exact h.elim
  | ret r => exact ⟨r, rfl, h⟩
  | hang => exact h.elim

end ends

/-- A function that may be left early, told from its result: what is left early does not have
the property that the rest of the function gives. -/
theorem Holds.iff_exists_next {P : α → Prop} {Q : ρ → Prop} {x : Flow ρ α} {f : α → Flow ρ σ}
    {r : ρ} (h : Holds P (fun r => ¬ Q r) x) (hf : ∀ a, P a → Holds (fun _ => True) Q (f a))
    (hr : x.bind f = ret r) : Q r ↔ ∃ a, x = next a := by
  rcases bind_eq_ret_iff.1 hr with rfl | ⟨a, rfl, hret⟩
  · exact iff_of_false h (by simp)
  · have hrest := hf a h
    rw [hret, holds_ret] at hrest
    exact iff_of_true hrest ⟨a, rfl⟩

/-! ## The states at the head of a loop -/

/-- A loop over `bs` that starts with `a` arrives at its head with the elements `rest` left and
a state. -/
inductive Reaches (cond : α → Bool) (body : β → α → Flow ρ α) (bs : List β) (a : α) :
    List β → α → Prop where
  | start : Reaches cond body bs a bs a
  | step {b : β} {rest : List β} {a₁ a₂ : α} : Reaches cond body bs a (b :: rest) a₁ →
      cond a₁ = true → body b a₁ = next a₂ → Reaches cond body bs a rest a₂

section reaches
variable {cond : α → Bool} {body : β → α → Flow ρ α} {bs : List β} {a a' : α}

theorem Reaches.suffix {rest : List β} (h : Reaches cond body bs a rest a') : rest <:+ bs := by
  induction h with
  | start => exact List.suffix_refl bs
  | step _ _ _ ih => exact (List.suffix_cons _ _).trans ih

/-- Once at the head, the loop goes on from there. -/
theorem Reaches.of_next {bs' : List β} {a₁ : α} (h : Reaches cond body bs a bs' a₁)
    (hrun : forEachWhile cond body bs' a₁ = next a') :
    ∃ rest, Reaches cond body bs a rest a' ∧ (rest = [] ∨ cond a' = false) := by
  induction bs' generalizing a₁ with
  | nil =>
    simp only [forEachWhile, next.injEq] at hrun
    subst hrun
    exact ⟨[], h, Or.inl rfl⟩
  | cons b bs' ih =>
    by_cases hc : cond a₁ = true
    · simp only [forEachWhile, hc, if_true] at hrun
      rcases bind_eq_next_iff.1 hrun with ⟨a₂, hbody, hrun⟩
      exact ih (.step h hc hbody) hrun
    · simp only [forEachWhile, hc, Bool.false_eq_true, if_false, next.injEq] at hrun
      subst hrun
      exact ⟨b :: bs', h, Or.inr (by simpa using hc)⟩

/-- A function left from within the loop is left by an iteration. -/
theorem Reaches.of_ret {bs' : List β} {a₁ : α} {r : ρ} (h : Reaches cond body bs a bs' a₁)
    (hrun : forEachWhile cond body bs' a₁ = ret r) :
    ∃ b rest a₂, Reaches cond body bs a (b :: rest) a₂ ∧ cond a₂ = true ∧ body b a₂ = ret r := by
  induction bs' generalizing a₁ with
  | nil => simp [forEachWhile] at hrun
  | cons b bs' ih =>
    by_cases hc : cond a₁ = true
    · simp only [forEachWhile, hc, if_true] at hrun
      rcases bind_eq_ret_iff.1 hrun with hbody | ⟨a₂, hbody, hrun⟩
      · exact ⟨b, bs', a₁, h, hc, hbody⟩
      · exact ih (.step h hc hbody) hrun
    · simp [forEachWhile, hc] at hrun

theorem forEachWhile_true (bs : List β) (a : α) :
    forEachWhile (fun _ => true) body bs a = forEach body bs a := by
  induction bs generalizing a with
  | nil => rfl
  | cons b bs ih =>
    simp only [forEachWhile, if_true, forEach_cons]
    exact congrArg (body b a).bind (funext ih)

/-- The loop ends at its head. -/
theorem reaches_of_forEach (h : forEach body bs a = next a') :
    Reaches (fun _ => true) body bs a [] a' := by
  rw [← forEachWhile_true] at h
  rcases Reaches.start.of_next h with ⟨rest, hreaches, hrest | hcond⟩
  · exact hrest ▸ hreaches
  · exact absurd hcond (by decide)

theorem exists_reaches_of_forEach {r : ρ} (h : forEach body bs a = ret r) :
    ∃ b rest a₁, Reaches (fun _ => true) body bs a (b :: rest) a₁ ∧ body b a₁ = ret r := by
  rw [← forEachWhile_true] at h
  rcases Reaches.start.of_ret h with ⟨b, rest, a₁, hreaches, _, hbody⟩
  exact ⟨b, rest, a₁, hreaches, hbody⟩

end reaches

/-! ## Two functions side by side -/

/-- There is one state to go on with. -/
theorem exists_next_and_iff {y : Flow ρ α} {Q : α → Prop} :
    (∃ a, y = next a ∧ Q a) ↔ (∃ a, y = next a) ∧ ∀ a, y = next a → Q a := by
  constructor
  · intro h
    rcases h with ⟨a, ha, hQ⟩
    refine ⟨⟨a, ha⟩, fun a' ha' => ?_⟩
    rw [ha, next.injEq] at ha'
    exact ha' ▸ hQ
  · intro h
    rcases h with ⟨⟨a, ha⟩, hQ⟩
    exact ⟨a, ha, hQ a ha⟩

/-- From `P`, the function `x` goes on exactly where `y` goes on with `Q`. `y` is a function
that is not left where `x` may be, and `Q` says that `x` has not been left there. -/
def Tracks (P : Prop) (Q : α → Prop) (x y : Flow ρ α) : Prop :=
  ∀ a, P ∧ x = next a ↔ y = next a ∧ Q a

section tracks
variable {P : Prop} {Q : α → Prop}

theorem Tracks.of_iff {P' : Prop} {x y : Flow ρ α} (h : Tracks P Q x y) (hP : P' ↔ P) :
    Tracks P' Q x y := fun a => (and_congr_left fun _ => hP).trans (h a)

theorem Tracks.exists_next_iff {x y : Flow ρ α} (h : Tracks P Q x y) (hP : P) :
    (∃ a, x = next a) ↔ ∃ a, y = next a ∧ Q a :=
  exists_congr fun a => (and_iff_right hP).symm.trans (h a)

theorem tracks_next {a : α} (h : P ↔ Q a) : Tracks P Q (next a : Flow ρ α) (next a) := by
  intro a'
  rw [next.injEq, and_comm]
  exact and_congr_right fun heq => heq ▸ h

theorem tracks_ret (r r' : ρ) : Tracks P Q (ret r) (ret r') := by
  intro a
  simp

theorem tracks_ret_next {a : α} (h : ¬ Q a) (r : ρ) : Tracks P Q (ret r) (next a) := by
  intro a'
  rw [next.injEq]
  constructor
  · intro hret
    exact absurd hret.2 (by simp)
  · intro hnext
    exact absurd (hnext.1 ▸ hnext.2) h

/-- A statement that `y` does without the return of `x`. -/
theorem tracks_ite {c : Prop} [Decidable c] {a : α} (h : P ∧ c ↔ Q a) (r : ρ) :
    Tracks P Q (if c then next a else ret r) (next a) := by
  by_cases hc : c
  · rw [if_pos hc]
    exact tracks_next (by rw [← h, and_iff_left hc])
  · rw [if_neg hc]
    exact tracks_ret_next (fun hQ => hc (h.2 hQ).2) r

/-- Sequencing. -/
theorem Tracks.bind {R : σ → Prop} {x y : Flow ρ α} {f g : α → Flow ρ σ} (h : Tracks P Q x y)
    (hf : ∀ a, Tracks (Q a) R (f a) (g a)) : Tracks P R (x.bind f) (y.bind g) := by
  intro b
  rw [bind_eq_next_iff, bind_eq_next_iff]
  constructor
  · intro hx
    rcases hx with ⟨hP, a, ha, hb⟩
    rcases (h a).1 ⟨hP, ha⟩ with ⟨hy, hQ⟩
    rcases (hf a b).1 ⟨hQ, hb⟩ with ⟨hg, hR⟩
    exact ⟨⟨a, hy, hg⟩, hR⟩
  · intro hy
    rcases hy with ⟨⟨a, ha, hb⟩, hR⟩
    rcases (hf a b).2 ⟨hb, hR⟩ with ⟨hQ, hfa⟩
    rcases (h a).2 ⟨ha, hQ⟩ with ⟨hP, hx⟩
    exact ⟨hP, a, hx, hfa⟩

/-- **The rule of the loops**: an iteration of the one tracks an iteration of the other. -/
theorem tracks_forEach {body body' : β → α → Flow ρ α} (bs : List β) (a : α)
    (h : ∀ b a, Tracks (Q a) Q (body b a) (body' b a)) :
    Tracks (Q a) Q (forEach body bs a) (forEach body' bs a) := by
  induction bs generalizing a with
  | nil => exact tracks_next Iff.rfl
  | cons b bs ih => exact (h b a).bind ih

theorem tracks_forEachWhile {cond : α → Bool} {body body' : β → α → Flow ρ α} (bs : List β)
    (a : α) (h : ∀ b a, Tracks (Q a) Q (body b a) (body' b a)) :
    Tracks (Q a) Q (forEachWhile cond body bs a) (forEachWhile cond body' bs a) := by
  induction bs generalizing a with
  | nil => exact tracks_next Iff.rfl
  | cons b bs ih =>
    simp only [forEachWhile]
    split_ifs
    · exact (h b a).bind ih
    · exact tracks_next Iff.rfl

theorem tracks_whileLoop {cond : α → Bool} {body body' : α → Flow ρ α} (fuel : ℕ) (a : α)
    (h : ∀ a, Tracks (Q a) Q (body a) (body' a)) :
    Tracks (Q a) Q (whileLoop cond body fuel a) (whileLoop cond body' fuel a) := by
  induction fuel generalizing a with
  | zero =>
    simp only [whileLoop]
    split_ifs
    · intro a'
      simp
    · exact tracks_next Iff.rfl
  | succ fuel ih =>
    simp only [whileLoop]
    split_ifs
    · exact (h a).bind ih
    · exact tracks_next Iff.rfl

end tracks
end Flow
end AudioCrash
