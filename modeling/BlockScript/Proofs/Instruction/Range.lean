import BlockScript.Proofs.Instruction.Merge

namespace BlockScript.Instruction

open Number

variable {i : Instruction} {opcode : Opcode} {field new : Field} {value : Param} {x : Float}
  {ps : Params}

def Field.InRange : Field → Prop
  | count times => 1 ≤ times.toNat ∧ times.toNat ≤ 2 ^ 32 - 1
  | seconds x => x.isNaN = false ∧ x.isFinite = true ∧ 0 ≤ x
  | _ => True

instance : DecidablePred Field.InRange
  | .count _ => inferInstanceAs (Decidable (_ ∧ _))
  | .seconds _ => inferInstanceAs (Decidable (_ ∧ _ ∧ _))
  | .amount _ | .axis _ | .color _ => inferInstanceAs (Decidable True)

/-- The instructions of a type that can come up: what the editor puts in a new block or what is
read from some parameters, with other parameters merged into it any number of times. -/
inductive Authored (opcode : Opcode) : Instruction → Prop
  | dropped : Authored opcode (authoringDefault opcode)
  | read (ps : Params) : Authored opcode (ofParams opcode ps).value
  | configured {i : Instruction} (hi : Authored opcode i) (ps : Params) :
    Authored opcode (i.configure ps).value

theorem Field.inRange_of_read? (h : field.read? value = some new) : new.InRange := by
  cases field with
  | count times =>
    obtain ⟨x, hx, rfl⟩ := Option.map_eq_some_iff.1 h
    have hrounds := toNat_rounds (Param.number?_eq_some_iff.1 hx).isFinite
    constructor <;> omega
  | seconds y =>
    obtain ⟨y, hy, rfl⟩ := Option.map_eq_some_iff.1 h
    obtain ⟨x, hx, rfl⟩ := Option.map_eq_some_iff.1 hy
    have hfinite := (Param.number?_eq_some_iff.1 hx).isFinite
    rw [InRange]
    split
    · decide +kernel
    · next hge =>
      have hnumber := not_isNaN_of_isFinite hfinite
      exact ⟨hnumber, hfinite, le_of_not_lt hnumber rfl hge⟩
  | _ =>
    obtain ⟨_, _, rfl⟩ := Option.map_eq_some_iff.1 h
    trivial

theorem Field.InRange.merge (hfield : field.InRange) (given : Option Param) :
    (field.merge given).InRange := by
  rcases field.merge_cases given with hkept | ⟨value, hread⟩
  · rwa [hkept]
  · exact inRange_of_read? hread

theorem Merged.inRange {given : String → Option Param} {j : Instruction} (h : Merged given i j)
    (hi : ∀ field ∈ i.fields, field.2.InRange) : ∀ field ∈ j.fields, field.2.InRange := by
  rw [h.fields_eq]
  exact List.forall_mem_map.2 fun field hfield => (hi field hfield).merge _

theorem inRange_fallback (opcode : Opcode) :
    ∀ field ∈ (fallback opcode).fields, field.2.InRange := by
  cases opcode <;> decide +kernel

theorem inRange_authoringDefault (opcode : Opcode) :
    ∀ field ∈ (authoringDefault opcode).fields, field.2.InRange := by
  cases opcode <;> decide +kernel

theorem Authored.opcode_eq (hi : Authored opcode i) : i.opcode? = some opcode := by
  induction hi with
  | dropped => cases opcode <;> rfl
  | read ps =>
    have hfallback : (fallback opcode).opcode? = some opcode := by cases opcode <;> rfl
    exact (merged_configure _ ps).opcode.trans hfallback
  | configured _ ps ih => exact (merged_configure _ ps).opcode.trans ih

theorem Authored.inRange (hi : Authored opcode i) : ∀ field ∈ i.fields, field.2.InRange := by
  induction hi with
  | dropped => exact inRange_authoringDefault opcode
  | read ps => exact (merged_configure _ ps).inRange (inRange_fallback opcode)
  | configured _ ps ih => exact (merged_configure _ ps).inRange ih

theorem eq_loop_of_opcode (hi : i.opcode? = some .loop) : ∃ times, i = loop times := by
  cases i with
  | loop times => exact ⟨times, rfl⟩
  | _ => simp [opcode?] at hi

theorem configure_loop (hi : i.opcode? = some .loop) (hgiven : ps["times"]? = some value)
    (hvalue : value.number? = some x) : (i.configure ps).value = loop (rounds x) := by
  obtain ⟨times, rfl⟩ := eq_loop_of_opcode hi
  have hmerged := merged_configure (loop times) ps
  refine eq_of_fields hmerged.opcode hmerged.typeName (hmerged.fields_eq.trans ?_)
  simp [fields, Field.merge, Field.read?, hgiven, hvalue]

end BlockScript.Instruction
