import AudioCrash.Lib.Loop

/-!
# Producers

A producer is called again and again. Each call gives an item, or nothing yet, or returns a code
once there is nothing more. `first` calls until there is an item, which is how a function that
always gives an item is made of one that may not, and `collect` takes the items of such a
function until it returns.

`Yields` says which items come and what is returned in the end, and after how many calls, so that
the fuel of the loops can be compared with it.

## Main definitions

* `Producer.first`, `Producer.collect` — the loops.
* `Producer.Yields` — what comes out.
* `Producer.Yields.first_nil`, `Producer.Yields.first_cons` — the first item.
* `Producer.Yields.collect` — all of them.
-/

namespace AudioCrash.Producer

universe u
variable {σ ι κ : Type u}

/-- Call until there is an item. -/
def first (step : σ → Flow (κ × σ) (Option ι × σ)) (fuel : ℕ) (s : σ) :
    Flow (κ × σ) (Option ι × σ) :=
  Flow.whileLoop (fun p => p.1.isNone) (fun p => step p.2) fuel (none, s)

theorem first_succ (step : σ → Flow (κ × σ) (Option ι × σ)) (fuel : ℕ) (s : σ) :
    first step (fuel + 1) s = (step s).bind fun p =>
      if p.1.isNone then first step fuel p.2 else Flow.next p := by
  rw [first, Flow.whileLoop]
  simp only [Option.isNone_none, if_true]
  congr 1
  funext p
  rcases p with ⟨_ | i, s⟩
  · rfl
  · cases fuel <;> rfl

/-- An invariant of the calls holds when there is an item. -/
theorem first_invariant {step : σ → Flow (κ × σ) (Option ι × σ)} {P : σ → Prop}
    (hstep : ∀ s p, P s → step s = Flow.next p → P p.2) {fuel : ℕ} {s : σ} {p : Option ι × σ}
    (hs : P s) (h : first step fuel s = Flow.next p) : P p.2 := by
  induction fuel generalizing s with
  | zero => cases h
  | succ fuel ih =>
    rw [first_succ] at h
    rcases Flow.bind_eq_next_iff.1 h with ⟨q, hq, hp⟩
    split_ifs at hp with hnone
    · exact ih (hstep s q hs hq) hp
    · cases hp
      exact hstep _ _ hs hq

/-- Take items until the function returns. -/
def collect {R : Type u} (get : σ → Flow (κ × σ) (Option ι × σ)) :
    ℕ → σ → Flow R (List ι × κ × σ)
  | 0, _ => Flow.hang
  | n + 1, s =>
    match get s with
    | .next (i, s) =>
      (collect get n s).bind fun rest => Flow.next (i.toList ++ rest.1, rest.2)
    | .ret r => Flow.next ([], r)
    | .hang => Flow.hang

/-- The items of so many calls, and what the last one returns. -/
inductive Yields (step : σ → Flow (κ × σ) (Option ι × σ)) : ℕ → σ → List ι → κ × σ → Prop where
  | stop {s r} (ret : step s = Flow.ret r) : Yields step 1 s [] r
  | skip {s s₁ n l r} (next : step s = Flow.next (none, s₁)) (rest : Yields step n s₁ l r) :
      Yields step (n + 1) s l r
  | item {s s₁ n i l r} (next : step s = Flow.next (some i, s₁)) (rest : Yields step n s₁ l r) :
      Yields step (n + 1) s (i :: l) r

namespace Yields
variable {step : σ → Flow (κ × σ) (Option ι × σ)} {s s₁ : σ} {n fuel : ℕ} {i : ι} {l : List ι}
  {r : κ × σ}

/-- A state that gives the same at the next call gives the same altogether. -/
theorem congr (h : Yields step n s l r) (hsame : step s₁ = step s) : Yields step n s₁ l r := by
  cases h with
  | stop hret => exact .stop (hsame.trans hret)
  | skip hnext hrest => exact .skip (hsame.trans hnext) hrest
  | item hnext hrest => exact .item (hsame.trans hnext) hrest

/-- A call that may give an item. -/
theorem call {o : Option ι} (hnext : step s = Flow.next (o, s₁)) (h : Yields step n s₁ l r) :
    Yields step (n + 1) s (o.toList ++ l) r := by
  cases o with
  | none => exact .skip hnext h
  | some i => exact .item hnext h

theorem length_lt (h : Yields step n s l r) : l.length < n := by
  induction h with
  | stop hret => exact Nat.zero_lt_one
  | skip hnext hrest ih => exact Nat.lt_succ_of_lt ih
  | item hnext hrest ih => exact Nat.succ_lt_succ ih

theorem first_nil (h : Yields step n s [] r) (hfuel : n ≤ fuel) :
    first step fuel s = Flow.ret r := by
  generalize hl : ([] : List ι) = l at h
  induction h generalizing fuel with
  | stop hret =>
    obtain ⟨fuel, rfl⟩ : ∃ k, fuel = k + 1 := ⟨fuel - 1, by omega⟩
    rw [first_succ, hret, Flow.bind_ret]
  | skip hnext hrest ih =>
    obtain ⟨fuel, rfl⟩ : ∃ k, fuel = k + 1 := ⟨fuel - 1, by omega⟩
    rw [first_succ, hnext, Flow.bind_next]
    exact ih (by omega) hl
  | item hnext hrest ih => cases hl

theorem first_cons (h : Yields step n s (i :: l) r) (hfuel : n ≤ fuel) :
    ∃ m s₁, first step fuel s = Flow.next (some i, s₁) ∧ m < n ∧ Yields step m s₁ l r := by
  generalize hl : i :: l = items at h
  induction h generalizing fuel with
  | stop hret => cases hl
  | skip hnext hrest ih =>
    obtain ⟨fuel, rfl⟩ : ∃ k, fuel = k + 1 := ⟨fuel - 1, by omega⟩
    rcases ih (Nat.le_of_succ_le_succ hfuel) hl with ⟨m, s₂, hfirst, hlt, hyields⟩
    refine ⟨m, s₂, ?_, by omega, hyields⟩
    rw [first_succ, hnext, Flow.bind_next]
    exact hfirst
  | item hnext hrest ih =>
    cases hl
    obtain ⟨fuel, rfl⟩ : ∃ k, fuel = k + 1 := ⟨fuel - 1, by omega⟩
    refine ⟨_, _, ?_, Nat.lt_succ_self _, hrest⟩
    rw [first_succ, hnext, Flow.bind_next]
    rfl

/-- The items of a function that calls until there is one, and what it returns after them: `f` of
what the last call has returned. -/
theorem collect {R : Type u} {get : σ → Flow (κ × σ) (Option ι × σ)} {f : κ × σ → κ × σ}
    {P : σ → Prop} (hstep : ∀ s p, P s → step s = Flow.next p → P p.2)
    (hnext : ∀ s p, P s → first step fuel s = Flow.next p → get s = Flow.next p)
    (hret : ∀ s r, P s → first step fuel s = Flow.ret r → get s = Flow.ret (f r))
    (h : Yields step n s l r) (hs : P s) (hfuel : n ≤ fuel) {m : ℕ} (hm : l.length < m) :
    (Producer.collect get m s : Flow R _) = Flow.next (l, f r) := by
  induction l generalizing n s m with
  | nil =>
    obtain ⟨m, rfl⟩ : ∃ k, m = k + 1 := ⟨m - 1, by omega⟩
    rw [Producer.collect, hret s r hs (h.first_nil hfuel)]
  | cons i l ih =>
    obtain ⟨m, rfl⟩ : ∃ k, m = k + 1 := ⟨m - 1, by omega⟩
    rcases h.first_cons hfuel with ⟨n', s₁, hfirst, hlt, hyields⟩
    rw [List.length_cons] at hm
    have hrest := ih hyields (first_invariant hstep hs hfirst) (by omega) (m := m) (by omega)
    rw [Producer.collect, hnext s _ hs hfirst]
    dsimp only
    rw [hrest]
    rfl

end Yields

end AudioCrash.Producer
