import BlockScript.Proofs.Thread.Blocked
import BlockScript.Proofs.Thread.Ticks
import Mathlib.Data.List.Induction

namespace BlockScript

def Action.CarriesOut (action : Action) : Instruction → Prop
  | .move _ _ duration =>
    (∃ start target, action.tween = .move start target) ∧ action.duration = duration
  | .rotate _ _ duration =>
    (∃ start target, action.tween = .rotate start target) ∧ action.duration = duration
  | .scale factor duration =>
    (∃ start, action.tween = .scale start factor) ∧ action.duration = duration
  | _ => False

namespace Thread

variable {s : Script} {now : Float} {t : Thread} {a : Appearance} {action : Action} {h : Handle}
  {stack : List Frame}

/-- Whether a stack stands right behind a block, and a change is the one of that block. -/
structure Carries (s : Script) (stack : List Frame) (action : Action) (h : Handle) : Prop where
  lasts : 0 < action.duration
  place : ∃ frame outer, stack = frame :: outer ∧ 1 ≤ frame.next ∧
    (s.children frame.block)[frame.next - 1]? = some h
  carriesOut : ∃ i, s.instruction? h = some i ∧ action.CarriesOut i

/-- Whether a change that a tick leaves under way is that of the block it has dispatched last. -/
def Begins (s : Script) (now : Float) (result : Advance) : Prop :=
  ∀ action, result.thread.action = some action → action.startTime = now ∧
    ∃ h, result.dispatched.getLast? = some h ∧ Carries s result.thread.stack action h

theorem dispatch_action (t : Thread) (h : Handle) (i : Instruction) (a : Appearance) (now : Float) :
    (t.dispatch h i a now).1.action = t.action ∨
      ∃ action a', t.dispatch h i a now = ({ t with action := some action }, a', true) ∧
        action.startTime = now ∧ 0 < action.duration ∧ action.CarriesOut i := by
  cases i with
  | move | rotate =>
    simp only [dispatch, tween?]
    split
    · next hlasts => exact .inr ⟨_, a, rfl, rfl, hlasts, ⟨_, _, rfl⟩, rfl⟩
    · exact .inl rfl
  | scale =>
    simp only [dispatch, tween?]
    split
    · next hlasts => exact .inr ⟨_, a, rfl, rfl, hlasts, ⟨_, rfl⟩, rfl⟩
    · exact .inl rfl
  | _ => exact .inl rfl

theorem begins_of_action_eq_none {result : Advance} (hnone : result.thread.action = none) :
    Begins s now result := by
  intro action haction
  rw [hnone] at haction
  contradiction

theorem Begins.behind {result : Advance} (hbegins : Begins s now result) (h : Handle)
    (steps : Nat) :
    Begins s now { result with steps, dispatched := h :: result.dispatched } := by
  intro action haction
  obtain ⟨hstart, child, hlast, hcarries⟩ := hbegins action haction
  refine ⟨hstart, child, ?_, hcarries⟩
  rw [List.getLast?_cons, hlast, Option.getD_some]

theorem Begins.settle {result : Advance} (hbegins : Begins s now result) :
    Begins s now (settle result) := by
  intro action haction
  rw [settle_action] at haction
  rw [settle_dispatched, settle_stack]
  exact hbegins action haction

theorem begins_run (hnone : t.action = none) (n : Nat) (a : Appearance) :
    Begins s now (run s now n t a) := by
  induction n generalizing t a with
  | zero => exact begins_of_action_eq_none hnone
  | succ n ih =>
    rw [run]
    split
    · exact begins_of_action_eq_none hnone
    next frame outer hstack =>
    split
    · split
      · exact begins_of_action_eq_none hnone
      · exact ih (t := { t with stack := outer }) hnone a
    next child hchild =>
    dsimp only
    split
    · exact ih (t := { t with stack := { frame with next := frame.next + 1 } :: outer }) hnone a
    next i hi =>
    rcases dispatch_action { t with stack := { frame with next := frame.next + 1 } :: outer } child
      i a now with hkept | ⟨action, a', heq, hstart, hlasts, hcarriesOut⟩
    · revert hkept
      generalize dispatch _ child i a now = result
      obtain ⟨t', a', suspended⟩ := result
      intro hkept
      cases suspended with
      | true => exact begins_of_action_eq_none (hkept.trans hnone)
      | false => exact (ih (hkept.trans hnone) a').behind child _
    · rw [heq]
      intro begun hbegun
      obtain rfl := Option.some.inj hbegun
      exact ⟨hstart, child, rfl, hlasts, ⟨_, _, rfl, Nat.succ_pos _, hchild⟩, i, hi, hcarriesOut⟩

theorem begins_wake (hnone : t.action = none) (a : Appearance) :
    Begins s now (wake s t a now) := by
  unfold wake
  split
  · exact begins_of_action_eq_none hnone
  · exact (begins_run hnone budget a).settle

theorem advance_begins (s : Script) (t : Thread) (a : Appearance) (now : Float) :
    ((t.advance s a now).thread = t ∧ (t.advance s a now).dispatched = []) ∨
      Begins s now (t.advance s a now) := by
  unfold advance
  split
  · split
    · next hnone => exact .inr (begins_wake hnone a)
    · next action _ =>
      split
      · exact .inl ⟨rfl, rfl⟩
      · exact .inr (begins_wake rfl _)
  · exact .inl ⟨rfl, rfl⟩

/-- A change under way goes back to the tick that began it, since which nothing was dispatched. -/
theorem begun_of_action {root : Handle} {ticks : List (Float × Appearance)}
    (haction : ((start root).after s ticks).action = some action) :
    ∃ h, ((start root).dispatchedIn s ticks).getLast? = some h ∧
      Carries s ((start root).after s ticks).stack action h ∧
      ∃ before now a later, ticks = before ++ (now, a) :: later ∧ action.startTime = now ∧
        let made := ((start root).after s before).advance s a now
        made.thread = (start root).after s ticks ∧ made.dispatched.getLast? = some h := by
  induction ticks using List.reverseRecOn with
  | nil => contradiction
  | append_singleton ticks tick ih =>
    obtain ⟨now, a⟩ := tick
    rw [after_concat] at haction ⊢
    rw [dispatchedIn_concat]
    rcases advance_begins s ((start root).after s ticks) a now with ⟨hthread, hnothing⟩ | hbegins
    · rw [hthread] at haction ⊢
      obtain ⟨h, hlast, hcarries, before, start, b, later, rfl, hstart, hmade⟩ := ih haction
      refine ⟨h, ?_, hcarries, before, start, b, later ++ [(now, a)], ?_, hstart, hmade⟩
      · rw [hnothing, List.append_nil]
        exact hlast
      · rw [List.append_assoc, List.cons_append]
    · obtain ⟨hstart, h, hlast, hcarries⟩ := hbegins action haction
      refine ⟨h, ?_, hcarries, ticks, now, a, [], rfl, hstart, rfl, hlast⟩
      rw [List.getLast?_append, hlast, Option.some_or]

/-- However many ticks there have been, and whatever the object was like in them, a change that is
under way is that of the block which had its turn last: the thread is active and stands right behind
that block, the change is of its kind, takes as long as it says, which is some time, and goes where
it says, and it began at the time of the tick in which the block had its turn. A thread that is not
active has nothing left to do and no change under way. -/
theorem change_after (s : Script) (root : Handle) (ticks : List (Float × Appearance)) :
    let t := (start root).after s ticks
    (∀ action, t.action = some action →
      t.active = true ∧ 0 < action.duration ∧
        ∃ frame outer h i, t.stack = frame :: outer ∧ 1 ≤ frame.next ∧
          (s.children frame.block)[frame.next - 1]? = some h ∧ s.instruction? h = some i ∧
          action.CarriesOut i ∧ ((start root).dispatchedIn s ticks).getLast? = some h ∧
          ∃ before now a later, ticks = before ++ (now, a) :: later ∧ action.startTime = now ∧
            let made := ((start root).after s before).advance s a now
            made.thread = t ∧ made.dispatched.getLast? = some h) ∧
      (t.active = false → t.stack = [] ∧ t.action = none) := by
  intro t
  have hactive : t.active = !t.stack.isEmpty := active_after root ticks
  constructor
  · intro action haction
    obtain ⟨h, hlast, hcarries, hmade⟩ := begun_of_action haction
    obtain ⟨hlasts, ⟨frame, outer, hstack, hbegun, hchild⟩, i, hi, hcarriesOut⟩ := hcarries
    have htrue : t.active = true := by
      rw [hactive, hstack]
      rfl
    exact ⟨htrue, hlasts, frame, outer, h, i, hstack, hbegun, hchild, hi, hcarriesOut, hlast, hmade⟩
  · intro hinactive
    rw [hactive] at hinactive
    have hstack : t.stack = [] := by simpa using hinactive
    refine ⟨hstack, ?_⟩
    cases haction : t.action with
    | none => rfl
    | some action =>
      obtain ⟨_, _, hcarries, _⟩ := begun_of_action haction
      obtain ⟨frame, outer, hnonempty, _⟩ := hcarries.place
      rw [hstack] at hnonempty
      contradiction

example : let t := (start ⟨0, 0⟩).after .growing [(0, .default), (0.5, .default)]
    t.action = some ⟨.scale 1 3, 0, 2⟩ ∧ t.stack = [⟨⟨0, 0⟩, 1, none⟩] := by
  decide +kernel

end Thread

end BlockScript
