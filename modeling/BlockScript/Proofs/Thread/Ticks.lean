import BlockScript.Proofs.Thread.Step

namespace BlockScript.Thread

variable {s : Script} {t : Thread} {ticks : List (Float × Appearance)}

/-- The thread after some ticks, each at a time and on an object as it is then. -/
def after (s : Script) (t : Thread) (ticks : List (Float × Appearance)) : Thread :=
  ticks.foldl (fun t tick => (t.advance s tick.2 tick.1).thread) t

/-- The blocks that have their turn in some ticks. -/
def dispatchedIn (s : Script) (t : Thread) : List (Float × Appearance) → List Handle
  | [] => []
  | (now, a) :: ticks =>
    let first := t.advance s a now
    first.dispatched ++ dispatchedIn s first.thread ticks

theorem after_concat (s : Script) (t : Thread) (ticks : List (Float × Appearance)) (now : Float)
    (a : Appearance) :
    t.after s (ticks ++ [(now, a)]) = ((t.after s ticks).advance s a now).thread :=
  List.foldl_append

theorem dispatchedIn_concat (s : Script) (t : Thread) (ticks : List (Float × Appearance))
    (now : Float) (a : Appearance) :
    t.dispatchedIn s (ticks ++ [(now, a)]) =
      t.dispatchedIn s ticks ++ ((t.after s ticks).advance s a now).dispatched := by
  induction ticks generalizing t with
  | nil => exact List.append_nil _
  | cons tick ticks ih =>
    rw [List.cons_append, dispatchedIn, dispatchedIn, ih, ← List.append_assoc]
    rfl

theorem after_of_advance {P : Thread → Prop} (h : P t)
    (hadvance : ∀ t a now, P t → P (t.advance s a now).thread) : P (t.after s ticks) := by
  induction ticks generalizing t with
  | nil => exact h
  | cons tick ticks ih => exact ih (hadvance t tick.2 tick.1 h)

theorem active_advance (hactive : t.active = !t.stack.isEmpty) (a : Appearance) (now : Float) :
    (t.advance s a now).thread.active = !(t.advance s a now).thread.stack.isEmpty := by
  rcases advance_eq s t a now with ⟨action, a', heq⟩ | ⟨a', heq⟩
  · rw [heq]
    exact hactive
  · rw [heq, settle_active, settle_stack, (run_steps budget _ a').active]
    by_cases hstack : t.stack = []
    · have hempty : ({ t with action := none } : Thread).stack = [] := hstack
      rw [run_of_stack_nil budget a' hempty, hempty, List.isEmpty_nil, Bool.not_true,
        Bool.and_false]
    · have hnonempty : (!t.stack.isEmpty) = true := by simpa using hstack
      rw [hactive, hnonempty, Bool.true_and]

theorem active_after (root : Handle) (ticks : List (Float × Appearance)) :
    ((start root).after s ticks).active = !((start root).after s ticks).stack.isEmpty :=
  after_of_advance (P := fun t => t.active = !t.stack.isEmpty) rfl fun _ a now h =>
    active_advance h a now

end BlockScript.Thread
