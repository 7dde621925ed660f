import BlockScript.Behavior
import BlockScript.Proofs.Instruction.Range
import BlockScript.Proofs.Number.Single

namespace BlockScript

open Number

variable {given : Option Param} {x : Float}

/-- Whether a number is in the range of single precision, should a parameter be given that says
one. -/
def Param.FitsSingle (given : Option Param) : Prop :=
  ∀ x, given.bind Param.number? = some x → |exact x| < 2 ^ 128 - 2 ^ 103

theorem Param.fitsSingle_none (h : given.bind number? = none) : FitsSingle given := by
  intro x hx
  rw [h] at hx
  contradiction

theorem Param.isFinite_single_iff_fitsSingle (h : given.bind number? = some x) :
    (single x).isFinite = true ↔ FitsSingle given := by
  obtain ⟨value, _, hvalue⟩ := Option.bind_eq_some_iff.1 h
  rw [isFinite_single_iff (number?_eq_some_iff.1 hvalue).isFinite]
  constructor
  · intro hfits y hy
    obtain rfl : x = y := Option.some.inj (h.symm.trans hy)
    exact hfits
  · intro hfits
    exact hfits x h

namespace Instruction

variable {field : Field} {i j : Instruction} {ps : Params}

/-- Whether the amount in a field is finite, if there is one. -/
def Field.IsFinite : Field → Prop
  | amount x => x.isFinite = true
  | _ => True

instance : DecidablePred Field.IsFinite
  | .amount x => inferInstanceAs (Decidable (x.isFinite = true))
  | .count _ | .seconds _ | .axis _ | .color _ => inferInstanceAs (Decidable True)

/-- Whether the parameter given for a field fits it, which only an amount asks for. -/
def Field.Fits (field : Field) (given : Option Param) : Prop :=
  match field with
  | amount _ => Param.FitsSingle given
  | _ => True

def IsFinite (i : Instruction) : Prop :=
  ∀ field ∈ i.fields, field.2.IsFinite

instance : DecidablePred IsFinite :=
  fun i => inferInstanceAs (Decidable (∀ field ∈ i.fields, field.2.IsFinite))

def Fits (i : Instruction) (ps : Params) : Prop :=
  ∀ field ∈ i.fields, field.2.Fits ps[field.1]?

theorem Field.merge_amount (y : Float32) (given : Option Param) :
    (amount y).merge given = amount (((given.bind Param.number?).map single).getD y) := by
  cases given with
  | none => rfl
  | some value =>
    simp only [merge, Option.bind_some, read?, amount?]
    cases value.number? <;> rfl

theorem Field.isFinite_merge_iff (hfield : field.IsFinite) (given : Option Param) :
    (field.merge given).IsFinite ↔ field.Fits given := by
  cases field with
  | amount y =>
    rw [merge_amount]
    cases hx : given.bind Param.number? with
    | none => exact iff_of_true hfield (Param.fitsSingle_none hx)
    | some x => exact Param.isFinite_single_iff_fitsSingle hx
  | _ =>
    refine iff_of_true ?_ trivial
    rcases Field.merge_cases _ given with hkept | ⟨value, hread⟩
    · rw [hkept]
      trivial
    · obtain ⟨_, _, hnew⟩ := Option.map_eq_some_iff.1 hread
      rw [← hnew]
      trivial

theorem Merged.isFinite_iff (h : Merged (ps[·]?) i j) (hi : i.IsFinite) :
    j.IsFinite ↔ i.Fits ps := by
  rw [IsFinite, h.fields_eq, List.forall_mem_map]
  constructor
  · intro hj field hfield
    exact (Field.isFinite_merge_iff (hi field hfield) _).1 (hj field hfield)
  · intro hfits field hfield
    exact (Field.isFinite_merge_iff (hi field hfield) _).2 (hfits field hfield)

theorem isFinite_fallback (opcode : Opcode) : (fallback opcode).IsFinite := by
  cases opcode <;> decide +kernel

end Instruction

theorem Ambience.isFinite_speed_iff (ps : Params) :
    ∃ speed axis, Ambience.ofParams? "SPIN" ps = some (.spin speed axis) ∧
      (speed.isFinite = true ↔ Param.FitsSingle ps["speed"]?) := by
  refine ⟨_, _, rfl, ?_⟩
  cases hx : ps["speed"]?.bind Param.number? with
  | none => exact iff_of_true (by decide +kernel) (Param.fitsSingle_none hx)
  | some x => exact Param.isFinite_single_iff_fitsSingle hx

/-- What is stored for the amounts of an instruction and for the speed of a spin is finite exactly
if the numbers given for them are in the range of single precision. -/
theorem isFinite_amounts_iff (ps : Params) :
    (∀ i : Instruction, i.IsFinite → ((i.configure ps).value.IsFinite ↔ i.Fits ps)) ∧
      (∀ opcode, (Instruction.ofParams opcode ps).value.IsFinite ↔
        (Instruction.fallback opcode).Fits ps) ∧
      ∃ speed axis, Ambience.ofParams? "SPIN" ps = some (.spin speed axis) ∧
        (speed.isFinite = true ↔ Param.FitsSingle ps["speed"]?) := by
  refine ⟨?_, ?_, Ambience.isFinite_speed_iff ps⟩
  · intro i hi
    exact (Instruction.merged_configure i ps).isFinite_iff hi
  · intro opcode
    exact (Instruction.merged_configure _ ps).isFinite_iff (Instruction.isFinite_fallback opcode)

/-- A distance that is finite as it is read, and no longer as it is stored. -/
theorem not_isFinite_distance :
    let ps : Params := .ofList [("distance", .number 1e300)] compare
    (ps["distance"]?.bind Param.number?).isSome = true ∧
      ¬ (Instruction.ofParams .move ps).value.IsFinite := by
  decide +kernel

end BlockScript
