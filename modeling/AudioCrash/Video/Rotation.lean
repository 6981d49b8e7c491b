import AudioCrash.Video.Thumbnail
import Mathlib.Data.Int.ModEq

/-!
# The angle of the picture

`find_rotate` reads the angle of the metadata into an `int` and takes the remainder, which has the
sign of the `int`, and `make_dump_flt` switches on 90, 180 and 270. A negative angle has its
residue as a negative number, and the picture is not turned; an angle that an `int` does not hold
has another residue.

## Main definitions

* `turn`, `describe` — the filters that an angle asks for.
* `Backward`, `Plain`, `Kept` — the angles that are lost, those that are not turned, and those
  that get the filters they ask for.
* `kept_iff_of_fits` — of the angles that an `int` holds, all but the first kind are kept.
* `rotation_iff` — the description depends on the residue of the angle exactly for the last.
-/

namespace AudioCrash.Video

/-- The filter for an angle, by its residue. -/
def turn (angle : ℤ) : String :=
  if angle % 360 = 90 then "transpose=1"
  else if angle % 360 = 180 then "rotate=3.14159265358979323846264338327950288"
  else if angle % 360 = 270 then "transpose=2"
  else "rotate=0"

/-- The description of a graph that turns the picture by a filter, and scales it. -/
def withScale (filter : String) (width : ℤ) : String :=
  "[in] " ++ filter ++ (if 0 < width then " [inter]; [inter] " ++ " scale=" ++ toString width ++
    ":" ++ toString width ++ "/a" else "") ++ " [out]"

/-- The description of the graph for an angle, by its residue. -/
def describe (angle width : ℤ) : Option String :=
  if angle % 360 = 0 ∧ width ≤ 0 then none else some (withScale (turn angle) width)

/-- A negative angle whose residue asks for a turn. -/
def Backward (angle : ℤ) : Prop :=
  angle < 0 ∧ (angle % 360 = 90 ∨ angle % 360 = 180 ∨ angle % 360 = 270)

instance (angle : ℤ) : Decidable (Backward angle) :=
  inferInstanceAs (Decidable (angle < 0 ∧ _))

/-- A multiple of a quarter turn. -/
def Square (angle : ℤ) : Prop := angle % 90 = 0

instance (angle : ℤ) : Decidable (Square angle) := inferInstanceAs (Decidable (_ = _))

/-- The `int` gets a graph that does not turn the picture. -/
def Plain (angle : ℤ) : Prop := ¬ Square angle ∨ Backward angle

instance (angle : ℤ) : Decidable (Plain angle) := inferInstanceAs (Decidable (_ ∨ _))

/-- What `atoi` makes of the angle is treated as the angle asks for. -/
def Kept (angle : ℤ) : Prop :=
  if Plain (atoi angle) then ¬ Square angle else atoi angle % 360 = angle % 360

instance (angle : ℤ) : Decidable (Kept angle) := by
  unfold Kept
  infer_instance

/-! ## The `int` -/

theorem atoi_of_fits {n : ℤ} (hlow : -2 ^ 31 ≤ n) (hhigh : n < 2 ^ 31) : atoi n = n := by
  rw [atoi, min_eq_left (by omega), max_eq_right (by omega)]
  exact Int.bmod_eq_of_le_mul_two (by omega) (by omega)

/-- The angles that an `int` holds are kept unless they are lost. -/
theorem kept_iff_of_fits {angle : ℤ} (hlow : -2 ^ 31 ≤ angle) (hhigh : angle < 2 ^ 31) :
    Kept angle ↔ ¬ Backward angle := by
  rw [Kept, atoi_of_fits hlow hhigh]
  by_cases hback : Backward angle
  · have hsquare : Square angle := by
      unfold Backward at hback
      unfold Square
      omega
    have hplain : Plain angle := Or.inr hback
    rw [if_pos hplain]
    exact iff_of_false (not_not_intro hsquare) (not_not_intro hback)
  · by_cases hsquare : Square angle
    · have hplain : ¬ Plain angle := not_or.2 ⟨not_not_intro hsquare, hback⟩
      rw [if_neg hplain]
      exact iff_of_true rfl hback
    · have hplain : Plain angle := Or.inl hsquare
      rw [if_pos hplain]
      exact iff_of_true hsquare hback

/-! ## The description -/

/-- The remainder of C, by the residue. -/
theorem findRotate_eq (angle : ℤ) :
    findRotate (some angle) =
      if 0 ≤ atoi angle ∨ atoi angle % 360 = 0 then atoi angle % 360
      else atoi angle % 360 - 360 := by
  rw [findRotate, Int.tmod_eq_emod]
  simp only [Int.dvd_iff_emod_eq_zero]
  split_ifs <;> omega

theorem findRotate_eq_zero_iff (angle : ℤ) :
    findRotate (some angle) = 0 ↔ atoi angle % 360 = 0 := by
  rw [findRotate_eq]
  split_ifs <;> omega

/-- The filter of an angle that is no multiple of a quarter turn. -/
theorem turn_of_not_square {angle : ℤ} (h : ¬ Square angle) : turn angle = "rotate=0" := by
  unfold Square at h
  rw [turn, if_neg (by omega), if_neg (by omega), if_neg (by omega)]

/-- The filter that is used. -/
theorem rotateDesc_findRotate (angle : ℤ) :
    rotateDesc (findRotate (some angle)) =
      if Plain (atoi angle) then "rotate=0" else turn (atoi angle) := by
  rw [findRotate_eq]
  by_cases hpos : 0 ≤ atoi angle ∨ atoi angle % 360 = 0
  · have hback : ¬ Backward (atoi angle) := by
      intro h
      unfold Backward at h
      omega
    rw [if_pos hpos]
    change turn (atoi angle) = _
    by_cases hsquare : Square (atoi angle)
    · have hplain : ¬ Plain (atoi angle) := not_or.2 ⟨not_not_intro hsquare, hback⟩
      rw [if_neg hplain]
    · have hplain : Plain (atoi angle) := Or.inl hsquare
      rw [if_pos hplain, turn_of_not_square hsquare]
  · have hplain : Plain (atoi angle) := by
      unfold Plain Backward Square
      omega
    rw [if_neg hpos, if_pos hplain, rotateDesc, if_neg (by omega), if_neg (by omega),
      if_neg (by omega)]

theorem makeDumpFlt_eq (rotate width : ℤ) :
    makeDumpFlt rotate width =
      if rotate = 0 ∧ width ≤ 0 then none else some (withScale (rotateDesc rotate) width) := by
  rw [makeDumpFlt, withScale]
  by_cases hwidth : 0 < width
  · simp only [hwidth, if_true, String.append_assoc]
  · simp only [hwidth, if_false, String.append_empty]

/-- The description of the graph, with the filter that is used. -/
theorem makeDumpFlt_findRotate (angle width : ℤ) :
    makeDumpFlt (findRotate (some angle)) width =
      if Plain (atoi angle) then some (withScale "rotate=0" width)
      else describe (atoi angle) width := by
  simp only [makeDumpFlt_eq, rotateDesc_findRotate, findRotate_eq_zero_iff, describe]
  by_cases hplain : Plain (atoi angle)
  · have hzero : ¬ (atoi angle % 360 = 0 ∧ width ≤ 0) := by
      unfold Plain Backward Square at hplain
      omega
    rw [if_pos hplain, if_pos hplain, if_neg hzero]
  · rw [if_neg hplain, if_neg hplain]

/-! ## Equal descriptions -/

section describe
variable {angle angle' : ℤ}

theorem describe_congr (h : angle % 360 = angle' % 360) (width : ℤ) :
    describe angle width = describe angle' width := by
  rw [describe, describe, turn, turn, h]

theorem describe_of_not_square (h : ¬ Square angle) (width : ℤ) :
    describe angle width = some (withScale "rotate=0" width) := by
  have hzero : ¬ (angle % 360 = 0 ∧ width ≤ 0) := by
    unfold Square at h
    omega
  rw [describe, if_neg hzero, turn_of_not_square h]

/-- Without a width, the residues of the quarter turns have descriptions of their own. -/
theorem describe_zero (h : Square angle) :
    angle % 360 = 0 ∧ describe angle 0 = none ∨
      angle % 360 = 90 ∧ describe angle 0 = some "[in] transpose=1 [out]" ∨
      angle % 360 = 180 ∧
        describe angle 0 = some "[in] rotate=3.14159265358979323846264338327950288 [out]" ∨
      angle % 360 = 270 ∧ describe angle 0 = some "[in] transpose=2 [out]" := by
  have hcases : angle % 360 = 0 ∨ angle % 360 = 90 ∨ angle % 360 = 180 ∨ angle % 360 = 270 := by
    unfold Square at h
    omega
  rw [describe, turn]
  rcases hcases with hmod | hmod | hmod | hmod
  all_goals
    rw [hmod]
    decide

theorem describe_ne_of_square (h : Square angle) :
    some (withScale "rotate=0" 0) ≠ describe angle 0 := by
  rcases describe_zero h with ⟨_, heq⟩ | ⟨_, heq⟩ | ⟨_, heq⟩ | ⟨_, heq⟩
  all_goals
    rw [heq]
    decide

theorem describe_inj_of_square (h : Square angle) (h' : Square angle')
    (heq : describe angle 0 = describe angle' 0) : angle % 360 = angle' % 360 := by
  rcases describe_zero h with ⟨hmod, hd⟩ | ⟨hmod, hd⟩ | ⟨hmod, hd⟩ | ⟨hmod, hd⟩ <;>
    rcases describe_zero h' with ⟨hmod', hd'⟩ | ⟨hmod', hd'⟩ | ⟨hmod', hd'⟩ | ⟨hmod', hd'⟩ <;>
    rw [hd, hd'] at heq <;>
    first | exact hmod.trans hmod'.symm | exact absurd heq (by decide)

theorem square_of_not_plain (h : ¬ Plain angle) : Square angle := not_not.1 (not_or.1 h).1

end describe

/-- Two angles get the same filters: none of them is turned, or they have the same residue. -/
def SameFilters (angle angle' : ℤ) : Prop :=
  if Plain angle then Plain angle' else ¬ Plain angle' ∧ angle % 360 = angle' % 360

instance (angle angle' : ℤ) : Decidable (SameFilters angle angle') := by
  unfold SameFilters
  infer_instance

theorem makeDumpFlt_eq_describe_iff (angle : ℤ) :
    (∀ width, makeDumpFlt (findRotate (some angle)) width = describe angle width) ↔
      Kept angle := by
  simp only [makeDumpFlt_findRotate, Kept]
  by_cases hplain : Plain (atoi angle)
  · simp only [if_pos hplain]
    constructor
    · intro hall hsquare
      exact describe_ne_of_square hsquare (hall 0)
    · intro hsquare width
      exact (describe_of_not_square hsquare width).symm
  · simp only [if_neg hplain]
    constructor
    · intro hall
      by_cases hsquare : Square angle
      · exact describe_inj_of_square (square_of_not_plain hplain) hsquare (hall 0)
      · have hzero := hall 0
        rw [describe_of_not_square hsquare] at hzero
        exact absurd hzero.symm (describe_ne_of_square (square_of_not_plain hplain))
    · exact fun hmod width => describe_congr hmod width

theorem makeDumpFlt_eq_iff (angle angle' : ℤ) :
    (∀ width, makeDumpFlt (findRotate (some angle)) width =
        makeDumpFlt (findRotate (some angle')) width) ↔
      SameFilters (atoi angle) (atoi angle') := by
  simp only [makeDumpFlt_findRotate, SameFilters]
  by_cases hplain : Plain (atoi angle)
  · simp only [if_pos hplain]
    by_cases hplain' : Plain (atoi angle')
    · simp only [if_pos hplain']
      exact iff_of_true (fun _ => trivial) hplain'
    · simp only [if_neg hplain']
      refine iff_of_false (fun hall => ?_) hplain'
      exact describe_ne_of_square (square_of_not_plain hplain') (hall 0)
  · simp only [if_neg hplain]
    by_cases hplain' : Plain (atoi angle')
    · simp only [if_pos hplain']
      refine iff_of_false (fun hall => ?_) fun h => h.1 hplain'
      exact describe_ne_of_square (square_of_not_plain hplain) (hall 0).symm
    · simp only [if_neg hplain']
      constructor
      · intro hall
        exact ⟨hplain', describe_inj_of_square (square_of_not_plain hplain)
          (square_of_not_plain hplain') (hall 0)⟩
      · exact fun h width => describe_congr h.2 width

/-- Whether a graph is built. -/
theorem isSome_makeDumpFlt (angle width : ℤ) :
    (makeDumpFlt (findRotate (some angle)) width).isSome =
      !decide (atoi angle % 360 = 0 ∧ width ≤ 0) := by
  simp only [makeDumpFlt_eq, findRotate_eq_zero_iff]
  split_ifs with hzero
  · rw [decide_eq_true hzero]
    rfl
  · rw [decide_eq_false hzero]
    rfl

/-- **The angle counts by its residue exactly when it is kept**; two angles have the same
description exactly when `atoi` makes of them angles with the same filters, and a graph is built
for both or neither exactly when both or neither of these are whole turns. -/
theorem rotation_iff (r r' : ℤ) :
    ((∀ width, makeDumpFlt (findRotate (some r)) width = describe r width) ↔ Kept r) ∧
      ((∀ width, makeDumpFlt (findRotate (some r)) width =
        makeDumpFlt (findRotate (some r')) width) ↔ SameFilters (atoi r) (atoi r')) ∧
      ((∀ width, (makeDumpFlt (findRotate (some r)) width).isSome =
        (makeDumpFlt (findRotate (some r')) width).isSome) ↔
          (atoi r % 360 = 0 ↔ atoi r' % 360 = 0)) := by
  refine ⟨makeDumpFlt_eq_describe_iff r, makeDumpFlt_eq_iff r r', ?_⟩
  simp only [isSome_makeDumpFlt, Bool.not_inj_iff, decide_eq_decide]
  constructor
  · intro hall
    simpa using hall 0
  · intro hiff width
    rw [hiff]

/-- The quarter turn backwards is lost, and one that an `int` does not hold. -/
theorem not_rotation_quarter :
    ((-90 : ℤ) ≡ 270 [ZMOD 360] ∧
      makeDumpFlt (findRotate (some (-90))) 0 = some "[in] rotate=0 [out]" ∧
      makeDumpFlt (findRotate (some 270)) 0 = some "[in] transpose=2 [out]" ∧
      makeDumpFlt (findRotate (some (-90))) 0 ≠ makeDumpFlt (findRotate (some 270)) 0) ∧
    (2147483970 : ℤ) ≡ 90 [ZMOD 360] ∧
      makeDumpFlt (findRotate (some 2147483970)) 0 = some "[in] rotate=0 [out]" := by
  decide

end AudioCrash.Video
