import BlockScript.Proofs.Thread.Step

namespace BlockScript

inductive Motion
  | move
  | rotate
  | scale
deriving DecidableEq

def Tween.motion : Tween → Motion
  | .move .. => .move
  | .rotate .. => .rotate
  | .scale .. => .scale

/-- A change under way without the values between which it goes. -/
structure Course where
  motion : Motion
  startTime : Float
  duration : Float

def Action.course (action : Action) : Course :=
  ⟨action.tween.motion, action.startTime, action.duration⟩

structure Control where
  stack : List Frame
  wakeTime : Float
  action : Option Course
  active : Bool

def Thread.control (t : Thread) : Control :=
  ⟨t.stack, t.wakeTime, t.action.map Action.course, t.active⟩

/-- Whether two ticks have taken the same way, on whatever objects. -/
structure Advance.Agrees (x y : Advance) : Prop where
  control : x.thread.control = y.thread.control
  steps : x.steps = y.steps
  dispatched : x.dispatched = y.dispatched

theorem Advance.Agrees.step {x y : Advance} (h : x.Agrees y) (ds : List Handle) :
    ({ x with steps := x.steps + 1, dispatched := ds ++ x.dispatched } : Advance).Agrees
      { y with steps := y.steps + 1, dispatched := ds ++ y.dispatched } where
  control := h.control
  steps := congrArg (· + 1) h.steps
  dispatched := congrArg (ds ++ ·) h.dispatched

theorem Action.resume_of_course {action other : Action} (h : action.course = other.course)
    (a b : Appearance) (now : Float) : (action.resume a now).2 = (other.resume b now).2 := by
  have hstart : action.startTime = other.startTime := congrArg Course.startTime h
  have hduration : action.duration = other.duration := congrArg Course.duration h
  simp only [Action.resume, hstart, hduration]
  split <;> rfl

namespace Thread

variable {s : Script} {t u : Thread}

theorem stack_of_control (h : t.control = u.control) : t.stack = u.stack :=
  congrArg Control.stack h

theorem control_withStack (h : t.control = u.control) (stack : List Frame) :
    ({ t with stack } : Thread).control = ({ u with stack } : Thread).control :=
  congrArg (fun c : Control => { c with stack }) h

theorem control_withAction (h : t.control = u.control) {action other : Action}
    (hcourse : action.course = other.course) :
    ({ t with action := some action } : Thread).control =
      ({ u with action := some other } : Thread).control := by
  change { t.control with action := some action.course } =
    { u.control with action := some other.course }
  rw [h, hcourse]

theorem dispatch_control (h : t.control = u.control) (child : Handle) (i : Instruction)
    (a b : Appearance) (now : Float) :
    (t.dispatch child i a now).1.control = (u.dispatch child i b now).1.control ∧
      (t.dispatch child i a now).2.2 = (u.dispatch child i b now).2.2 := by
  cases i with
  | wait duration =>
    exact ⟨congrArg (fun c : Control => { c with wakeTime := now + duration }) h, rfl⟩
  | forever =>
    exact ⟨congrArg (fun c : Control => { c with stack := ⟨child, 0, none⟩ :: c.stack }) h, rfl⟩
  | loop times =>
    exact ⟨congrArg (fun c : Control => { c with stack := ⟨child, 0, some 0⟩ :: c.stack }) h, rfl⟩
  | move _ _ duration | rotate _ _ duration | scale _ duration =>
    simp only [dispatch, tween?]
    split
    · exact ⟨control_withAction h rfl, rfl⟩
    · exact ⟨h, rfl⟩
  | _ => exact ⟨h, rfl⟩

theorem run_agrees (h : t.control = u.control) (now : Float) (n : Nat) (a b : Appearance) :
    (run s now n t a).Agrees (run s now n u b) := by
  induction n generalizing t u a b with
  | zero => exact ⟨h, rfl, rfl⟩
  | succ n ih =>
    rw [run, run, stack_of_control h]
    split
    · exact ⟨h, rfl, rfl⟩
    next frame outer _ =>
    split
    · split
      · exact ⟨control_withStack h _, rfl, rfl⟩
      · exact (ih (control_withStack h _) _ _).step []
    next child _ =>
    have hnext := control_withStack h ({ frame with next := frame.next + 1 } :: outer)
    dsimp only
    split
    · exact (ih hnext _ _).step []
    next i _ =>
    obtain ⟨hcontrol, hsuspended⟩ := dispatch_control hnext child i a b now
    revert hcontrol hsuspended
    generalize dispatch _ child i a now = x
    generalize dispatch _ child i b now = y
    obtain ⟨t', a', suspended⟩ := x
    obtain ⟨u', b', other⟩ := y
    rintro hcontrol rfl
    cases suspended with
    | true => exact ⟨hcontrol, rfl, rfl⟩
    | false => exact (ih hcontrol _ _).step [child]

theorem settle_agrees {x y : Advance} (h : x.Agrees y) : (settle x).Agrees (settle y) := by
  rw [settle, settle, stack_of_control h.control]
  split
  · exact ⟨congrArg (fun c : Control => { c with active := false }) h.control, h.steps,
      h.dispatched⟩
  · exact h

theorem wake_agrees (h : t.control = u.control) (a b : Appearance) (now : Float) :
    (wake s t a now).Agrees (wake s u b now) := by
  have hwake : t.wakeTime = u.wakeTime := congrArg Control.wakeTime h
  rw [wake, wake, hwake]
  split
  · exact ⟨h, rfl, rfl⟩
  · exact settle_agrees (run_agrees h now budget a b)

theorem advance_agrees (h : t.control = u.control) (a b : Appearance) (now : Float) :
    (t.advance s a now).Agrees (u.advance s b now) := by
  have hactive : t.active = u.active := congrArg Control.active h
  have haction : t.action.map Action.course = u.action.map Action.course :=
    congrArg Control.action h
  by_cases hu : u.active = true
  · rw [advance, advance, if_pos (hactive.trans hu), if_pos hu]
    cases ht : t.action with
    | none =>
      rw [ht] at haction
      rw [Option.map_eq_none_iff.1 haction.symm]
      exact wake_agrees h a b now
    | some action =>
      rw [ht] at haction
      obtain ⟨other, hother, hcourse⟩ := Option.map_eq_some_iff.1 haction.symm
      have hended := Action.resume_of_course hcourse.symm a b now
      rw [hother]
      dsimp only
      generalize action.resume a now = x at hended ⊢
      generalize other.resume b now = y at hended ⊢
      obtain ⟨a', ended⟩ := x
      obtain ⟨b', other⟩ := y
      obtain rfl : ended = other := hended
      cases ended with
      | false => exact ⟨h, rfl, rfl⟩
      | true =>
        apply wake_agrees
        exact congrArg (fun c : Control => { c with action := none }) h
  · have hu : u.active = false := Bool.eq_false_iff.2 hu
    rw [advance_of_inactive s a now (hactive.trans hu), advance_of_inactive s b now hu]
    exact ⟨h, rfl, rfl⟩

end Thread

end BlockScript
