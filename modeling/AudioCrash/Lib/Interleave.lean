import Mathlib.Logic.Function.Basic
import Mathlib.Tactic.Common

/-!
# Parts that take turns on a shared world

A system has parts, each with a state of its own, and one world. In a step one of the parts
moves, which changes its own state and the world; a label says which part moves and what its
surroundings choose for it. A step may be impossible.

`Each P` says of a list of labels that all steps taken along it satisfy `P`. Two properties
of steps are compared along a run by an invariant of the states (`each_congr`), and the
invariant is proved part by part: what a part relies on is kept by its own moves and by the
moves of the others (`step_rely`).

## Main definitions

* `System`, `System.step`, `System.run`
* `System.Each`, `System.each_congr`, `System.Each.of_run`
* `System.step_rely`
-/

namespace AudioCrash

universe u v
variable {ι : Type u} {κ : Type v} {Λ : ι → Type v} {W : Type v}

/-- The parts and the world. -/
structure System (Λ : ι → Type v) (W : Type v) where
  part : ∀ i, Λ i
  world : W

namespace System
variable [DecidableEq ι] (move : ∀ i, κ → Λ i → W → Option (Λ i × W))

/-- A part moves. -/
def step (l : ι × κ) (s : System Λ W) : Option (System Λ W) :=
  (move l.1 l.2 (s.part l.1) s.world).map fun r => ⟨Function.update s.part l.1 r.1, r.2⟩

/-- Take all steps of a list of labels. -/
def run : List (ι × κ) → System Λ W → Option (System Λ W)
  | [], s => some s
  | l :: ls, s => (step move l s).bind (run ls)

/-- Every step taken along a list of labels satisfies `P`. -/
def Each (P : ι × κ → System Λ W → System Λ W → Prop) : List (ι × κ) → System Λ W → Prop
  | [], _ => True
  | l :: ls, s => ∀ s', step move l s = some s' → P l s s' ∧ Each P ls s'

variable {move} {P Q : ι × κ → System Λ W → System Λ W → Prop}

theorem step_eq_some_iff {l : ι × κ} {s s' : System Λ W} : step move l s = some s' ↔
    ∃ a w, move l.1 l.2 (s.part l.1) s.world = some (a, w) ∧
      s' = ⟨Function.update s.part l.1 a, w⟩ := by
  rw [step, Option.map_eq_some_iff]
  constructor
  · intro hex
    rcases hex with ⟨r, hr, rfl⟩
    exact ⟨r.1, r.2, hr, rfl⟩
  · intro hex
    rcases hex with ⟨a, w, hmove, rfl⟩
    exact ⟨(a, w), hmove, rfl⟩

/-- What every step establishes holds at the end of a run, when it holds at its beginning. -/
theorem Each.of_run {R : System Λ W → Prop} (hstep : ∀ l s s', P l s s' → R s')
    {ls : List (ι × κ)} {s s' : System Λ W} (h : Each move P ls s) (hs : R s)
    (hrun : run move ls s = some s') : R s' := by
  induction ls generalizing s with
  | nil =>
    rw [run, Option.some_inj] at hrun
    exact hrun ▸ hs
  | cons l ls ih =>
    rcases Option.bind_eq_some_iff.1 hrun with ⟨s₁, hs₁, hrun₁⟩
    have hfirst := h s₁ hs₁
    exact ih hfirst.2 (hstep l s s₁ hfirst.1) hrun₁

/-- **Two properties of steps agree along every run**, when they agree on the states that
satisfy an invariant, and the steps that have the second one keep the invariant. -/
theorem each_congr {I : System Λ W → Prop}
    (hiff : ∀ l s s', I s → step move l s = some s' → (P l s s' ↔ Q l s s'))
    (hinv : ∀ l s s', I s → step move l s = some s' → Q l s s' → I s')
    (ls : List (ι × κ)) {s : System Λ W} (h : I s) : Each move P ls s ↔ Each move Q ls s := by
  induction ls generalizing s with
  | nil => exact Iff.rfl
  | cons l ls ih =>
    refine forall_congr' fun s' => forall_congr' fun hstep => ?_
    rw [hiff l s s' h hstep]
    exact and_congr_right fun hq => ih (hinv l s s' h hstep hq)

/-- **What every part relies on is kept by a step**, when it is kept by the moves of the part
itself and by those of the others. -/
theorem step_rely {R : ∀ i, Λ i → W → Prop} {C : ∀ i, κ → Λ i → W → Prop}
    (hown : ∀ i c a w a' w', R i a w → C i c a w → move i c a w = some (a', w') → R i a' w')
    (hother : ∀ i j c a b w b' w', i ≠ j → R i a w → R j b w → C j c b w →
      move j c b w = some (b', w') → R i a w')
    {l : ι × κ} {s s' : System Λ W} (h : ∀ i, R i (s.part i) s.world)
    (hc : C l.1 l.2 (s.part l.1) s.world) (hstep : step move l s = some s') :
    ∀ i, R i (s'.part i) s'.world := by
  rcases step_eq_some_iff.1 hstep with ⟨a, w, hmove, rfl⟩
  intro i
  dsimp only
  by_cases hi : i = l.1
  · subst hi
    rw [Function.update_self]
    exact hown l.1 l.2 _ _ a w (h l.1) hc hmove
  · rw [Function.update_of_ne hi]
    exact hother i l.1 l.2 _ _ _ a w hi (h i) (h l.1) hc hmove

end System
end AudioCrash
