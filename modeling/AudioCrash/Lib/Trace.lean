import Mathlib.Tactic.Common

/-!
# Traces of calls

A trace is the list of the calls that a program has made. Two things are said about it.

A call may acquire a resource, release it, or do neither. `ReleasedOnce` is the discipline that
every acquisition is followed by exactly one release before the next acquisition, or before the
end of the trace. A trace keeps it, or still holds what was acquired last: a step adds a call
to the one kind of trace or the other.

The answer to a call may depend on all calls made before. `Answered` says that every call of
the trace was answered with success.

## Main definitions

* `Effect` — what a call does with the resource.
* `ReleasedOnce`, `Held` — the discipline, and what is held.
* `Answered`, `answered_concat` — the answers to the calls.
-/

namespace AudioCrash.Trace

universe u
variable {κ : Type u}

/-- Where a call stands in a trace with one more call: last, or in the trace before. -/
theorem eq_or_of_concat_eq {log before after : List κ} {b c : κ}
    (h : log ++ [c] = before ++ b :: after) :
    log = before ∧ c = b ∨ ∃ after', after = after' ++ [c] ∧ log = before ++ b :: after' := by
  rcases List.eq_nil_or_concat after with rfl | ⟨after', c', rfl⟩
  · rcases List.append_inj' h rfl with ⟨hlog, hlast⟩
    exact Or.inl ⟨hlog, List.singleton_inj.1 hlast⟩
  · rw [List.concat_eq_append] at h ⊢
    rw [← List.cons_append, ← List.append_assoc] at h
    rcases List.append_inj' h rfl with ⟨hlog, hlast⟩
    exact Or.inr ⟨after', by rw [List.singleton_inj.1 hlast], hlog⟩

/-! ## Acquisition and release -/

/-- What a call does with the resource. -/
inductive Effect where
  | acquire | release | none
  deriving DecidableEq, Repr

section release
variable (effect : κ → Effect)

/-- The number of releases before the next acquisition, or before the end. -/
def releases : List κ → ℕ
  | [] => 0
  | c :: cs =>
    match effect c with
    | .acquire => 0
    | .release => releases cs + 1
    | .none => releases cs

/-- Every acquisition is released once, before the next acquisition or before the end. -/
def ReleasedOnce (log : List κ) : Prop :=
  ∀ before c after, log = before ++ c :: after → effect c = .acquire → releases effect after = 1

/-- What was acquired last has not been released. -/
def Held (log : List κ) : Prop :=
  ∃ done c since, log = done ++ c :: since ∧ ReleasedOnce effect done ∧
    effect c = .acquire ∧ ∀ c' ∈ since, effect c' = .none

variable {effect} {log : List κ} {c : κ}

theorem releases_none_append {since : List κ} (h : ∀ c ∈ since, effect c = .none)
    (rest : List κ) : releases effect (since ++ rest) = releases effect rest := by
  induction since with
  | nil => rfl
  | cons c since ih =>
    rcases List.forall_mem_cons.1 h with ⟨hc, hsince⟩
    simp only [List.cons_append, releases, hc, ih hsince]

theorem releases_append_of_eq_zero {rest : List κ} (h : releases effect rest = 0)
    (after : List κ) : releases effect (after ++ rest) = releases effect after := by
  induction after with
  | nil => exact h
  | cons c after ih =>
    rw [List.cons_append]
    cases hc : effect c with
    | acquire => simp only [releases, hc]
    | release => simp only [releases, hc, ih]
    | none => simp only [releases, hc, ih]

theorem releasedOnce_nil : ReleasedOnce effect [] := by
  intro before c after hsplit
  simp at hsplit

/-- One more acquisition, with its release. -/
theorem ReleasedOnce.append {since : List κ} (h : ReleasedOnce effect log)
    (hc : effect c = .acquire) (hsince : ∀ c' ∈ since, effect c' ≠ .acquire)
    (hone : releases effect since = 1) : ReleasedOnce effect (log ++ c :: since) := by
  intro before b after hsplit hb
  rcases List.append_eq_append_iff.1 hsplit with ⟨more, rfl, hrest⟩ | ⟨more, rfl, hrest⟩
  · -- the acquisition is at `c` or after it
    cases more with
    | nil =>
      rw [List.nil_append, List.cons_eq_cons] at hrest
      rwa [← hrest.2]
    | cons c' more =>
      rw [List.cons_append, List.cons_eq_cons] at hrest
      have hmem : b ∈ since := by simp [hrest.2]
      exact absurd hb (hsince b hmem)
  · -- the acquisition is at `c` or before it
    cases more with
    | nil =>
      rw [List.nil_append, List.cons_eq_cons] at hrest
      rwa [hrest.2]
    | cons c' more =>
      rw [List.cons_append, List.cons_eq_cons] at hrest
      rcases hrest with ⟨rfl, rfl⟩
      have hnext : releases effect (c :: since) = 0 := by simp only [releases, hc]
      rw [releases_append_of_eq_zero hnext]
      exact h before b more rfl hb

/-! ### One more call -/

theorem ReleasedOnce.concat (h : ReleasedOnce effect log) (hc : effect c = .none) :
    ReleasedOnce effect (log ++ [c]) := by
  intro before b after hsplit hb
  rcases eq_or_of_concat_eq hsplit with ⟨_, rfl⟩ | ⟨after', rfl, hlog⟩
  · rw [hc] at hb
    exact Effect.noConfusion hb
  · have hlast : releases effect [c] = 0 := by simp only [releases, hc]
    rw [releases_append_of_eq_zero hlast]
    exact h before b after' hlog hb

theorem ReleasedOnce.acquire (h : ReleasedOnce effect log) (hc : effect c = .acquire) :
    Held effect (log ++ [c]) :=
  ⟨log, c, [], rfl, h, hc, fun _ hc' => absurd hc' List.not_mem_nil⟩

theorem Held.concat (h : Held effect log) (hc : effect c = .none) : Held effect (log ++ [c]) := by
  rcases h with ⟨done, a, since, rfl, hdone, ha, hsince⟩
  refine ⟨done, a, since ++ [c], by simp, hdone, ha, ?_⟩
  intro c' hc'
  rcases List.mem_append.1 hc' with hc' | hc'
  · exact hsince c' hc'
  · rwa [List.mem_singleton.1 hc']

theorem Held.release (h : Held effect log) (hc : effect c = .release) :
    ReleasedOnce effect (log ++ [c]) := by
  rcases h with ⟨done, a, since, rfl, hdone, ha, hsince⟩
  rw [List.append_assoc, List.cons_append]
  have hone : releases effect (since ++ [c]) = 1 := by
    rw [releases_none_append hsince]
    simp only [releases, hc]
  refine hdone.append ha ?_ hone
  intro c' hc' hacquire
  rcases List.mem_append.1 hc' with hc' | hc'
  · rw [hsince c' hc'] at hacquire
    exact Effect.noConfusion hacquire
  · rw [List.mem_singleton.1 hc', hc] at hacquire
    exact Effect.noConfusion hacquire

theorem Held.not_releasedOnce (h : Held effect log) : ¬ ReleasedOnce effect log := by
  rcases h with ⟨done, a, since, rfl, _, ha, hsince⟩
  intro hreleased
  have hone := hreleased done a since rfl ha
  rw [← List.append_nil since, releases_none_append hsince] at hone
  exact Nat.zero_ne_one hone

end release

/-! ## The answers to the calls -/

section answered
variable (ok : List κ → κ → Bool)

/-- Every call was answered with success, after the calls made before it. -/
def Answered (log : List κ) : Prop :=
  ∀ before c after, log = before ++ c :: after → ok before c = true

theorem answered_nil : Answered ok [] := by
  intro before c after hsplit
  simp at hsplit

theorem answered_of_forall {ok : List κ → κ → Bool} (h : ∀ log c, ok log c = true)
    (log : List κ) : Answered ok log := fun before c _ _ => h before c

@[simp] theorem answered_concat (log : List κ) (c : κ) :
    Answered ok (log ++ [c]) ↔ Answered ok log ∧ ok log c = true := by
  constructor
  · intro h
    refine ⟨?_, h log c [] rfl⟩
    intro before b after hsplit
    exact h before b (after ++ [c]) (by simp [hsplit])
  · intro h before b after hsplit
    rcases eq_or_of_concat_eq hsplit with ⟨rfl, rfl⟩ | ⟨after', _, hlog⟩
    · exact h.2
    · exact h.1 before b after' hlog

end answered
end AudioCrash.Trace
