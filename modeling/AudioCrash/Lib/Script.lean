import AudioCrash.Lib.Loop

/-!
# Programs that make calls

A `Script` is a `Flow` that makes calls on the way and goes on with what they return, so that
it can be run one call after another. `exec` runs it to its end against a handler of the
calls, a function of a world.

Two ways of running a program are compared by `Flow.Related`: they both go on, with related
states, or both return, with related results. The rules for loops prove this of a script and
of a loop written without calls.

## Main definitions

* `Script`, `Script.bind`, `Script.ofFlow`, `Script.forEach`, `Script.whileLoop`
* `Script.exec`, `Script.exec_bind`, `Script.exec_holds`
* `Flow.Related`, `Flow.related_forEach`, `Flow.related_whileLoop`
* `Script.related_forEach`, `Script.related_whileLoop`
-/

namespace AudioCrash

universe u

/-- A statement goes on with a state, or returns from the function, or is still running when
the fuel is spent, or makes a call and goes on with the reply. -/
inductive Script (Op : Type u) (Reply : Op → Type u) (ρ α : Type u) where
  | next (a : α)
  | ret (r : ρ)
  | hang
  | call (op : Op) (k : Reply op → Script Op Reply ρ α)

/-! ## Related flows -/

namespace Flow
variable {ρ ρ' α α' β β' : Type u}

/-- Both go on with related states, or return related results, or hang. -/
def Related (R : α → α' → Prop) (Q : ρ → ρ' → Prop) : Flow ρ α → Flow ρ' α' → Prop
  | next a, next a' => R a a'
  | ret r, ret r' => Q r r'
  | hang, hang => True
  | _, _ => False

variable {R : α → α' → Prop} {Q : ρ → ρ' → Prop}

theorem Related.cases {x : Flow ρ α} {x' : Flow ρ' α'} (h : Related R Q x x') :
    (∃ a a', x = next a ∧ x' = next a' ∧ R a a') ∨ (∃ r r', x = ret r ∧ x' = ret r' ∧ Q r r') ∨
      (x = hang ∧ x' = hang) := by
  cases x with
  | next a =>
    cases x' with
    | next a' => exact Or.inl ⟨a, a', rfl, rfl, h⟩
    | ret r' => exact h.elim
    | hang => exact h.elim
  | ret r =>
    cases x' with
    | next a' => exact h.elim
    | ret r' => exact Or.inr (Or.inl ⟨r, r', rfl, rfl, h⟩)
    | hang => exact h.elim
  | hang =>
    cases x' with
    | next a' => exact h.elim
    | ret r' => exact h.elim
    | hang => exact Or.inr (Or.inr ⟨rfl, rfl⟩)

/-- Sequencing. -/
theorem Related.bind {R' : β → β' → Prop} {x : Flow ρ α} {x' : Flow ρ' α'} {f : α → Flow ρ β}
    {f' : α' → Flow ρ' β'} (h : Related R Q x x')
    (hf : ∀ a a', R a a' → Related R' Q (f a) (f' a')) :
    Related R' Q (x.bind f) (x'.bind f') := by
  rcases h.cases with ⟨a, a', rfl, rfl, ha⟩ | ⟨r, r', rfl, rfl, hr⟩ | ⟨rfl, rfl⟩
  · exact hf a a' ha
  · exact hr
  · trivial

/-- What comes to an end beside a statement that does. -/
theorem Related.ends {x : Flow ρ α} {x' : Flow ρ' α'} (h : Related R Q x x') (hx' : x' ≠ hang) :
    Ends (fun a => ∃ a', R a a') (fun r => ∃ r', Q r r') x := by
  rcases h.cases with ⟨a, a', rfl, rfl, ha⟩ | ⟨r, r', rfl, rfl, hr⟩ | ⟨rfl, rfl⟩
  · exact ⟨a', ha⟩
  · exact ⟨r', hr⟩
  · exact absurd rfl hx'

/-- Consequence. -/
theorem Related.imp {R' : α → α' → Prop} {Q' : ρ → ρ' → Prop} {x : Flow ρ α} {x' : Flow ρ' α'}
    (h : Related R Q x x') (hR : ∀ a a', R a a' → R' a a') (hQ : ∀ r r', Q r r' → Q' r r') :
    Related R' Q' x x' := by
  rcases h.cases with ⟨a, a', rfl, rfl, ha⟩ | ⟨r, r', rfl, rfl, hr⟩ | ⟨rfl, rfl⟩
  · exact hR a a' ha
  · exact hQ r r' hr
  · trivial

/-- What holds of the one statement holds beside the other. -/
theorem Related.and_holds {P : α' → Prop} {P' : ρ' → Prop} {x : Flow ρ α} {x' : Flow ρ' α'}
    (h : Related R Q x x') (h' : Holds P P' x') :
    Related (fun a a' => R a a' ∧ P a') (fun r r' => Q r r' ∧ P' r') x x' := by
  rcases h.cases with ⟨a, a', rfl, rfl, ha⟩ | ⟨r, r', rfl, rfl, hr⟩ | ⟨rfl, rfl⟩
  · exact ⟨ha, h'⟩
  · exact ⟨hr, h'⟩
  · trivial

/-- The state that a statement goes on with, or the result that it returns, in another form. -/
def map (f : α → β) (g : ρ → β') : Flow ρ α → Flow β' β
  | next a => next (f a)
  | ret r => ret (g r)
  | hang => hang

theorem Related.map {R' : β → α' → Prop} {Q' : β' → ρ' → Prop} {x : Flow ρ α} {x' : Flow ρ' α'}
    {f : α → β} {g : ρ → β'} (h : Related R Q x x') (hR : ∀ a a', R a a' → R' (f a) a')
    (hQ : ∀ r r', Q r r' → Q' (g r) r') : Related R' Q' (x.map f g) x' := by
  rcases h.cases with ⟨a, a', rfl, rfl, ha⟩ | ⟨r, r', rfl, rfl, hr⟩ | ⟨rfl, rfl⟩
  · exact hR a a' ha
  · exact hQ r r' hr
  · trivial

/-- A loop over a list: the relation may mention the elements already gone through, and a step
knows the elements that are left. -/
theorem related_forEach_of_split {γ : Type*} {body : γ → α → Flow ρ α}
    {body' : γ → α' → Flow ρ' α'} (P : List γ → α → α' → Prop) (bs : List γ) {d : List γ} {a : α}
    {a' : α'} (h0 : P d a a')
    (hstep : ∀ d' b rest a a', d ++ bs = d' ++ b :: rest → P d' a a' →
      Related (P (d' ++ [b])) Q (body b a) (body' b a')) :
    Related (P (d ++ bs)) Q (forEach body bs a) (forEach body' bs a') := by
  induction bs generalizing d a a' with
  | nil =>
    rw [List.append_nil]
    exact h0
  | cons b bs ih =>
    have hsplit : d ++ b :: bs = d ++ [b] ++ bs := by simp
    rw [forEach_cons, forEach_cons, hsplit]
    refine (hstep d b bs a a' rfl h0).bind fun a₁ a₁' h₁ => ih h₁ ?_
    intro d' b' rest a₂ a₂' heq
    exact hstep d' b' rest a₂ a₂' (hsplit.trans heq)

/-- A relation that does not mention the elements. -/
theorem related_forEach {γ : Type*} {body : γ → α → Flow ρ α} {body' : γ → α' → Flow ρ' α'}
    (hbody : ∀ b a a', R a a' → Related R Q (body b a) (body' b a')) (bs : List γ) {a : α}
    {a' : α'} (h : R a a') : Related R Q (forEach body bs a) (forEach body' bs a') :=
  related_forEach_of_split (fun _ => R) bs (d := []) h fun _ b _ a a' _ ha => hbody b a a' ha

/-- A loop driven by its condition. -/
theorem related_whileLoop {cond : α → Bool} {cond' : α' → Bool} {body : α → Flow ρ α}
    {body' : α' → Flow ρ' α'} (hcond : ∀ a a', R a a' → cond a = cond' a')
    (hbody : ∀ a a', R a a' → Related R Q (body a) (body' a')) (fuel : ℕ) {a : α} {a' : α'}
    (h : R a a') : Related R Q (whileLoop cond body fuel a) (whileLoop cond' body' fuel a') := by
  have hsame := hcond a a' h
  induction fuel generalizing a a' with
  | zero =>
    rw [whileLoop, whileLoop, ← hsame]
    split_ifs
    · trivial
    · exact h
  | succ fuel ih =>
    rw [whileLoop, whileLoop, ← hsame]
    split_ifs
    · exact (hbody a a' h).bind fun a₁ a₁' h₁ => ih h₁ (hcond a₁ a₁' h₁)
    · exact h

/-- A loop over a list that its condition may end early. -/
theorem related_forEachWhile {γ : Type*} {cond : α → Bool} {cond' : α' → Bool}
    {body : γ → α → Flow ρ α} {body' : γ → α' → Flow ρ' α'}
    (hcond : ∀ a a', R a a' → cond a = cond' a')
    (hbody : ∀ b a a', R a a' → Related R Q (body b a) (body' b a')) (bs : List γ) {a : α}
    {a' : α'} (h : R a a') :
    Related R Q (forEachWhile cond body bs a) (forEachWhile cond' body' bs a') := by
  induction bs generalizing a a' with
  | nil => exact h
  | cons b bs ih =>
    rw [forEachWhile, forEachWhile, hcond a a' h]
    split_ifs
    · exact (hbody b a a' h).bind fun a₁ a₁' h₁ => ih h₁
    · exact h

end Flow

/-! ## Sequencing and loops -/

namespace Script
variable {Op : Type u} {Reply : Op → Type u} {ρ α β W : Type u}

/-- Run the rest of the function unless it has been left. -/
def bind : Script Op Reply ρ α → (α → Script Op Reply ρ β) → Script Op Reply ρ β
  | next a, f => f a
  | ret r, _ => ret r
  | hang, _ => hang
  | call op k, f => call op fun reply => (k reply).bind f

/-- A statement that makes no call. -/
def ofFlow : Flow ρ α → Script Op Reply ρ α
  | .next a => next a
  | .ret r => ret r
  | .hang => hang

/-- `for (x : xs) body(x)`. -/
def forEach (body : β → α → Script Op Reply ρ α) : List β → α → Script Op Reply ρ α
  | [], a => next a
  | b :: bs, a => (body b a).bind (forEach body bs)

/-- `while (cond) body`, for at most `fuel` iterations. -/
def whileLoop (cond : α → Bool) (body : α → Script Op Reply ρ α) :
    ℕ → α → Script Op Reply ρ α
  | 0, a => if cond a then hang else next a
  | fuel + 1, a => if cond a then (body a).bind (whileLoop cond body fuel) else next a

/-! ## Running a script alone -/

section exec
variable (handle : (op : Op) → W → Reply op × W)

/-- Run a script against a handler of its calls. -/
def exec : Script Op Reply ρ α → W → Flow (ρ × W) (α × W)
  | next a, w => .next (a, w)
  | ret r, w => .ret (r, w)
  | hang, _ => .hang
  | call op k, w => (k (handle op w).1).exec (handle op w).2

@[simp] theorem exec_ret (r : ρ) (w : W) :
    (ret r : Script Op Reply ρ α).exec handle w = .ret (r, w) := rfl
@[simp] theorem exec_call (op : Op) (k : Reply op → Script Op Reply ρ α) (w : W) :
    (call op k).exec handle w = (k (handle op w).1).exec handle (handle op w).2 := rfl

theorem exec_bind (p : Script Op Reply ρ α) (f : α → Script Op Reply ρ β) (w : W) :
    (p.bind f).exec handle w = (p.exec handle w).bind fun r => (f r.1).exec handle r.2 := by
  induction p generalizing w with
  | next a => rfl
  | ret r => rfl
  | hang => rfl
  | call op k ih => exact ih (handle op w).1 (handle op w).2

variable {handle}

/-- What every call preserves holds at the end. -/
theorem exec_holds {P : W → Prop} (hcall : ∀ op w, P w → P (handle op w).2)
    (p : Script Op Reply ρ α) {w : W} (h : P w) :
    Flow.Holds (fun r => P r.2) (fun r => P r.2) (p.exec handle w) := by
  induction p generalizing w with
  | next a => exact h
  | ret r => exact h
  | hang => trivial
  | call op k ih => exact ih (handle op w).1 (hcall op w h)

/-! ## A script and a loop without calls -/

variable {σ ρ' : Type u} {R : α × W → σ → Prop} {Q : ρ × W → ρ' → Prop}

/-- A statement that makes no call leaves the world as it is. -/
theorem related_ofFlow {y : Flow ρ α} {y' : Flow ρ' σ} {w : W}
    (h : Flow.Related (fun a s => R (a, w) s) (fun r r' => Q (r, w) r') y y') :
    Flow.Related R Q ((ofFlow y : Script Op Reply ρ α).exec handle w) y' := by
  cases y <;> cases y' <;> exact h

/-- **A loop over a list.** -/
theorem related_forEach {body : β → α → Script Op Reply ρ α} {body' : β → σ → Flow ρ' σ}
    (hbody : ∀ b a w s, R (a, w) s →
      Flow.Related R Q ((body b a).exec handle w) (body' b s))
    (bs : List β) {a : α} {w : W} {s : σ} (h : R (a, w) s) :
    Flow.Related R Q ((forEach body bs a).exec handle w) (Flow.forEach body' bs s) := by
  induction bs generalizing a w s with
  | nil => exact h
  | cons b bs ih =>
    rw [forEach, Flow.forEach_cons, exec_bind]
    exact (hbody b a w s h).bind fun r s' hs' => ih hs'

/-- **A loop driven by its condition.** -/
theorem related_whileLoop {cond : α → Bool} {cond' : σ → Bool}
    {body : α → Script Op Reply ρ α} {body' : σ → Flow ρ' σ}
    (hcond : ∀ a w s, R (a, w) s → cond a = cond' s)
    (hbody : ∀ a w s, R (a, w) s → Flow.Related R Q ((body a).exec handle w) (body' s))
    (fuel : ℕ) {a : α} {w : W} {s : σ} (h : R (a, w) s) :
    Flow.Related R Q ((whileLoop cond body fuel a).exec handle w)
      (Flow.whileLoop cond' body' fuel s) := by
  have hsame := hcond a w s h
  induction fuel generalizing a w s with
  | zero =>
    rw [whileLoop, Flow.whileLoop, ← hsame]
    split_ifs
    · trivial
    · exact h
  | succ fuel ih =>
    rw [whileLoop, Flow.whileLoop, ← hsame]
    split_ifs
    · rw [exec_bind]
      exact (hbody a w s h).bind fun r s' hs' => ih hs' (hcond r.1 r.2 s' hs')
    · exact h

end exec
end Script
end AudioCrash
