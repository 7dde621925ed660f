import BlockScript.Proofs.Script.Edits

namespace BlockScript.Script

variable {s : Script} {key source target : String} {parent : Option Handle}

theorem Sound.insert_refused (hs : s.WellFormed) (instruction : Instruction)
    (hn : (s.insert key instruction parent).2 = none) :
    (s.insert key instruction parent).1 = s := by
  rcases hs.insert_cases key instruction parent with hsame | ⟨_, _, hinserted⟩
  · rw [hsame]
  · rw [hinserted] at hn
    contradiction

theorem Sound.configure_refused (hs : s.WellFormed) {ps : Params}
    (hn : (s.configure key ps).value.2 = false) : (s.configure key ps).value.1 = s := by
  rcases hs.find?_cases key with hmissing | ⟨h, block, hb, rfl⟩
  · rw [configure_eq_refused hmissing]
    rfl
  · rw [hs.configure_eq hb] at hn
    contradiction

theorem Sound.remove_refused (hs : s.WellFormed) (hn : (s.remove key).2 = false) :
    (s.remove key).1 = s := by
  rcases hs.find?_cases key with hmissing | ⟨h, block, hb, rfl⟩
  · rw [remove_eq_refused hmissing]
  · rw [hs.remove_eq hb] at hn
    contradiction

theorem Sound.reorder_refused (hs : s.WellFormed) (hn : (s.reorder source target).2 = false) :
    (s.reorder source target).1 = s := by
  rcases hs.reorder_cases source target with hsame | ⟨_, _, _, _, _, _, hmoved⟩
  · rw [hsame]
  · rw [hmoved] at hn
    contradiction

def accepts (s : Script) : Edit → Bool
  | .insert key instruction parent => (s.insert key instruction parent).2.isSome
  | .configure key ps => (s.configure key ps).value.2
  | .remove key => (s.remove key).2
  | .reorder source target => (s.reorder source target).2

theorem Sound.perform_of_refused (hs : s.WellFormed) {edit : Edit}
    (hrefused : s.accepts edit = false) : s.perform edit = s := by
  cases edit with
  | insert key instruction parent =>
    exact hs.insert_refused instruction (by simpa [accepts] using hrefused)
  | configure key ps => exact hs.configure_refused hrefused
  | remove key => exact hs.remove_refused hrefused
  | reorder source target => exact hs.reorder_refused hrefused

/-- How edits behave: they keep a script well-formed, and leave it as it is if they are refused. -/
structure Careful {α : Type} (edit : Script → Logged (Script × Option α)) : Prop where
  wellFormed : ∀ {s : Script}, s.WellFormed → (edit s).value.1.WellFormed
  refused : ∀ {s : Script}, s.WellFormed → (edit s).value.2 = none → (edit s).value.1 = s

end BlockScript.Script
