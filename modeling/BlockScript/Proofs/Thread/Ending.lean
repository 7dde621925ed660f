import BlockScript.Proofs.Thread.Budget
import BlockScript.Proofs.Thread.Cost
import BlockScript.Proofs.Thread.Ticks

namespace BlockScript

theorem Script.not_isForever_of_slots {s : Script}
    (hslots : ∀ slot ∈ s.slots.toList, slot.block.map (·.instruction) ≠ some .forever)
    (h : Handle) : ¬ s.IsForever h := by
  intro hforever
  obtain ⟨block, hb, hi⟩ := Option.map_eq_some_iff.1 hforever
  have hmem := Array.mem_of_getElem? (block?_eq_some_iff.1 hb)
  exact hslots _ (Array.mem_toList_iff.2 hmem) (congrArg some hi)

namespace Thread

variable {s : Script} {now : Float} {t t' : Thread} {a a' : Appearance} {ds : List Handle}
  {ticks : List (Float × Appearance)}

def stepsIn (s : Script) (t : Thread) : List (Float × Appearance) → List Nat
  | [] => []
  | (now, a) :: ticks =>
    let first := t.advance s a now
    first.steps :: stepsIn s first.thread ticks

section WithoutForever

variable (hs : s.WellFormed) (hforever : ∀ h, ¬ s.IsForever h)

include hs hforever

theorem Steps.costs_le (hsteps : Steps s now t a ds t' a')
    (hrange : ∀ frame ∈ t.stack, frame.InRange) : costs s t'.stack ≤ costs s t.stack := by
  induction hsteps with
  | refl => exact Nat.le_refl _
  | head first _ ih =>
    have hfirst := first.costs_lt_of_not_isForever hs hrange fun _ _ => hforever _
    have hrest := ih (first.remaining_eq hs hrange).2
    exact Nat.le_trans hrest (Nat.le_of_lt hfirst)

theorem costs_advance_le (hrange : ∀ frame ∈ t.stack, frame.InRange) (a : Appearance)
    (now : Float) :
    costs s (t.advance s a now).thread.stack +
      (if (t.advance s a now).steps ≠ 0 then 1 else 0) ≤ costs s t.stack := by
  rcases advance_eq s t a now with ⟨action, a', heq⟩ | ⟨a', heq⟩
  · rw [heq]
    exact Nat.le_refl _
  · rw [heq, settle_stack, settle_steps]
    by_cases hstack : t.stack = []
    · have hempty : ({ t with action := none } : Thread).stack = [] := hstack
      rw [run_of_stack_nil budget a' hempty]
      exact Nat.le_refl _
    · obtain ⟨ds, t', a'', ds', hfirst, hrest, _⟩ :=
        run_head (t := { t with action := none }) (by decide : 0 < budget) s now a' hstack
      have hless := hfirst.costs_lt_of_not_isForever hs hrange fun _ _ => hforever _
      have hle := hrest.costs_le hs hforever (hfirst.remaining_eq hs hrange).2
      have hlt := Nat.lt_of_le_of_lt hle hless
      split
      · exact hlt
      · exact Nat.le_of_lt hlt

theorem costs_after_le (hrange : ∀ frame ∈ t.stack, frame.InRange) :
    costs s (t.after s ticks).stack + (t.stepsIn s ticks).countP (· ≠ 0) ≤ costs s t.stack := by
  induction ticks generalizing t with
  | nil => exact Nat.le_refl _
  | cons tick ticks ih =>
    have hfirst := costs_advance_le hs hforever hrange tick.2 tick.1
    have hrest := ih (remaining_advance hs hrange tick.2 tick.1).2
    have hafter : t.after s (tick :: ticks) =
        (t.advance s tick.2 tick.1).thread.after s ticks := rfl
    rw [hafter, stepsIn, List.countP_cons]
    simp only [decide_eq_true_eq]
    omega

end WithoutForever

/-- Without a loop that has no end, a thread takes steps in so many ticks at most as its stack and
the script say, and after so many it is at its end. It takes a step in every tick in which it has
something to do and is not kept from it by a change that is not over or a time to wait for. So
nothing but its waits and its changes can hold it up, not even containers that have been removed or
counts that are too high. -/
theorem ends_without_forever (hs : s.WellFormed) (hforever : ∀ h, ¬ s.IsForever h)
    (hrange : ∀ frame ∈ t.stack, frame.InRange) (ticks : List (Float × Appearance)) :
    (t.stepsIn s ticks).countP (· ≠ 0) ≤ costs s t.stack ∧
      (t.active = true → t.stack ≠ [] →
        (t.stepsIn s ticks).countP (· ≠ 0) = costs s t.stack →
          (t.after s ticks).active = false ∧ (t.after s ticks).stack = []) ∧
      ∀ a now, (t.after s ticks).active = true → (t.after s ticks).stack ≠ [] →
        ¬ (t.after s ticks).Held now → ((t.after s ticks).advance s a now).steps ≠ 0 := by
  have hcosts : costs s (t.after s ticks).stack + (t.stepsIn s ticks).countP (· ≠ 0) ≤
      costs s t.stack := costs_after_le hs hforever hrange
  refine ⟨Nat.le_trans (Nat.le_add_left _ _) hcosts, ?_, ?_⟩
  · intro hactive hstack hall
    have hzero : costs s (t.after s ticks).stack = 0 := by omega
    have hnil := stack_nil_of_costs hzero
    have hkept : t.active = !t.stack.isEmpty := by simpa [hactive] using hstack
    have hended : (t.after s ticks).active = !(t.after s ticks).stack.isEmpty :=
      after_of_advance (P := fun t => t.active = !t.stack.isEmpty) hkept
        fun _ a now h => active_advance h a now
    rw [hnil] at hended
    exact ⟨hended, hnil⟩
  · intro a now hactive hstack hheld
    exact mt (steps_eq_zero_iff s a hactive hstack).1 hheld

/-- The innermost container is no longer stored, and the loop is behind all its children. -/
theorem ends_without_forever_stale :
    let t : Thread := ⟨[⟨⟨7, 3⟩, 0, none⟩, ⟨⟨1, 0⟩, 9, some 0⟩, ⟨⟨0, 0⟩, 1, none⟩], 0, none, true⟩
    let ticks := [(0, .default), (0, .default), (0, .default)]
    costs .flashing t.stack = 6 ∧ t.stepsIn .flashing ticks = [20, 4, 0] ∧
      (t.stepsIn .flashing ticks).countP (· ≠ 0) ≤ costs .flashing t.stack := by
  intro t ticks
  have hrange : ∀ frame ∈ t.stack, frame.InRange := by unfold Frame.InRange; decide
  have hforever : ∀ h, ¬ Script.flashing.IsForever h :=
    Script.not_isForever_of_slots (by decide +kernel)
  have hends := ends_without_forever Script.flashing_wellFormed hforever hrange ticks
  exact ⟨by decide +kernel, by decide +kernel, hends.1⟩

end Thread

end BlockScript
