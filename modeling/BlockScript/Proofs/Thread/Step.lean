import BlockScript.Thread.Advance

namespace BlockScript.Thread

variable {s : Script} {now : Float} {t t' : Thread} {a a' : Appearance} {ds : List Handle}

/-- One step of a thread, with the blocks that have their turn in it. -/
inductive Step (s : Script) (now : Float) : Thread → Appearance → List Handle → Thread →
    Appearance → Prop
  | leave {t : Thread} {a : Appearance} {frame : Frame} {outer : List Frame}
      (hstack : t.stack = frame :: outer) (hend : (s.children frame.block)[frame.next]? = none)
      (hnext : nextRound? s frame = none) : Step s now t a [] { t with stack := outer } a
  | again {t : Thread} {a : Appearance} {frame next : Frame} {outer : List Frame}
      (hstack : t.stack = frame :: outer) (hend : (s.children frame.block)[frame.next]? = none)
      (hnext : nextRound? s frame = some next) :
      Step s now t a [] { t with stack := next :: outer } a
  | skip {t : Thread} {a : Appearance} {frame : Frame} {outer : List Frame} {child : Handle}
      (hstack : t.stack = frame :: outer)
      (hchild : (s.children frame.block)[frame.next]? = some child)
      (hnone : s.instruction? child = none) :
      Step s now t a [] { t with stack := { frame with next := frame.next + 1 } :: outer } a
  | turn {t t' : Thread} {a a' : Appearance} {frame : Frame} {outer : List Frame} {child : Handle}
      {instruction : Instruction} {suspended : Bool} (hstack : t.stack = frame :: outer)
      (hchild : (s.children frame.block)[frame.next]? = some child)
      (hi : s.instruction? child = some instruction)
      (hturn : dispatch { t with stack := { frame with next := frame.next + 1 } :: outer } child
        instruction a now = (t', a', suspended)) :
      Step s now t a [child] t' a'

inductive Steps (s : Script) (now : Float) : Thread → Appearance → List Handle → Thread →
    Appearance → Prop
  | refl {t : Thread} {a : Appearance} : Steps s now t a [] t a
  | head {t t' t'' : Thread} {a a' a'' : Appearance} {ds ds' : List Handle}
      (first : Step s now t a ds t' a') (rest : Steps s now t' a' ds' t'' a'') :
      Steps s now t a (ds ++ ds') t'' a''

/-- The frame on which the children of a block are run. -/
def entered? (h : Handle) : Instruction → Option Frame
  | .forever => some ⟨h, 0, none⟩
  | .loop _ => some ⟨h, 0, some 0⟩
  | _ => none

theorem dispatch_stack (t : Thread) (h : Handle) (instruction : Instruction) (a : Appearance)
    (now : Float) :
    (t.dispatch h instruction a now).1.stack = (entered? h instruction).toList ++ t.stack := by
  cases instruction <;> simp only [dispatch, tween?, entered?, Option.toList] <;>
    first | rfl | (split <;> rfl)

theorem dispatch_active (t : Thread) (h : Handle) (instruction : Instruction) (a : Appearance)
    (now : Float) : (t.dispatch h instruction a now).1.active = t.active := by
  cases instruction <;> simp only [dispatch, tween?] <;> first | rfl | (split <;> rfl)

theorem run_of_stack_nil (n : Nat) (a : Appearance) (hstack : t.stack = []) :
    run s now n t a = ⟨t, a, 0, []⟩ := by
  cases n with
  | zero => rfl
  | succ n => rw [run, hstack]

/-- What there is budget for begins with a step as long as there is something left to do. -/
theorem run_succ (n : Nat) (a : Appearance) (hstack : t.stack ≠ []) :
    ∃ ds t' a' m, Step s now t a ds t' a' ∧
      (run s now (n + 1) t a).dispatched = ds ++ (run s now m t' a').dispatched ∧
      (run s now (n + 1) t a).thread = (run s now m t' a').thread ∧
      (run s now (n + 1) t a).appearance = (run s now m t' a').appearance ∧ m ≤ n := by
  obtain ⟨frame, outer, hstack⟩ := List.exists_cons_of_ne_nil hstack
  rw [run, hstack]
  simp only
  split
  · next hend =>
    split
    · next next hnext =>
      exact ⟨_, _, _, 0, .again hstack hend hnext, rfl, rfl, rfl, n.zero_le⟩
    · next hnext => exact ⟨_, _, _, n, .leave hstack hend hnext, rfl, rfl, rfl, n.le_refl⟩
  · next child hchild =>
    split
    · next hnone => exact ⟨_, _, _, n, .skip hstack hchild hnone, rfl, rfl, rfl, n.le_refl⟩
    · next instruction hi =>
      split
      · next t' a' hturn =>
        exact ⟨_, _, _, 0, .turn hstack hchild hi hturn, rfl, rfl, rfl, n.zero_le⟩
      · next t' a' hturn =>
        exact ⟨_, _, _, n, .turn hstack hchild hi hturn, rfl, rfl, rfl, n.le_refl⟩

theorem run_steps (n : Nat) (t : Thread) (a : Appearance) :
    Steps s now t a (run s now n t a).dispatched (run s now n t a).thread
      (run s now n t a).appearance := by
  induction n using Nat.strongRecOn generalizing t a with
  | ind n ih =>
    cases n with
    | zero => exact .refl
    | succ n =>
      by_cases hstack : t.stack = []
      · rw [run_of_stack_nil (n + 1) a hstack]
        exact .refl
      · obtain ⟨ds, t', a', m, hstep, hd, ht, ha, hm⟩ := run_succ n a hstack
        rw [hd, ht, ha]
        exact .head hstep (ih m (Nat.lt_succ_of_le hm) t' a')

theorem run_head {n : Nat} (hn : 0 < n) (s : Script) (now : Float) (a : Appearance)
    (hstack : t.stack ≠ []) :
    ∃ ds t' a' ds', Step s now t a ds t' a' ∧
      Steps s now t' a' ds' (run s now n t a).thread (run s now n t a).appearance ∧
      (run s now n t a).dispatched = ds ++ ds' := by
  obtain ⟨n, rfl⟩ := Nat.exists_eq_add_of_lt hn
  rw [Nat.zero_add]
  obtain ⟨ds, t', a', m, hstep, hd, ht, ha, _⟩ := run_succ n a hstack
  rw [hd, ht, ha]
  exact ⟨ds, t', a', _, hstep, run_steps m t' a', rfl⟩

@[simp] theorem settle_dispatched (result : Advance) :
    (settle result).dispatched = result.dispatched := by
  unfold settle
  split <;> rfl

@[simp] theorem settle_appearance (result : Advance) :
    (settle result).appearance = result.appearance := by
  unfold settle
  split <;> rfl

@[simp] theorem settle_stack (result : Advance) :
    (settle result).thread.stack = result.thread.stack := by
  unfold settle
  split <;> rfl

@[simp] theorem settle_action (result : Advance) :
    (settle result).thread.action = result.thread.action := by
  unfold settle
  split <;> rfl

@[simp] theorem settle_wakeTime (result : Advance) :
    (settle result).thread.wakeTime = result.thread.wakeTime := by
  unfold settle
  split <;> rfl

theorem settle_active (result : Advance) :
    (settle result).thread.active = (result.thread.active && !result.thread.stack.isEmpty) := by
  unfold settle
  split
  · next hempty => simp [hempty]
  · next hempty => simp [hempty]

/-- A tick is either spent waiting, or it runs the thread with the whole budget. -/
theorem advance_eq (s : Script) (t : Thread) (a : Appearance) (now : Float) :
    (∃ action a', t.advance s a now = ⟨{ t with action }, a', 0, []⟩) ∨
      ∃ a', t.advance s a now = settle (run s now budget { t with action := none } a') := by
  have hwake : ∀ a, ((∃ action a', wake s { t with action := none } a now =
      ⟨{ t with action }, a', 0, []⟩) ∨ ∃ a', wake s { t with action := none } a now =
        settle (run s now budget { t with action := none } a')) := by
    intro a
    unfold wake
    split
    · exact .inl ⟨none, a, rfl⟩
    · exact .inr ⟨a, rfl⟩
  unfold advance
  split
  · split
    · next haction =>
      have ht : t = { t with action := none } := by rw [← haction]
      rw [ht]
      exact hwake a
    · next action haction =>
      split
      · next a' hresume => exact .inl ⟨t.action, a', rfl⟩
      · next a' hresume => exact hwake a'
  · exact .inl ⟨t.action, a, rfl⟩

theorem advance_of_ready (s : Script) (a : Appearance) (hactive : t.active = true)
    (haction : t.action = none) (hnow : ¬ now < t.wakeTime) :
    t.advance s a now = settle (run s now budget t a) := by
  rw [advance, if_pos hactive, haction]
  exact if_neg hnow

theorem advance_of_inactive (s : Script) (a : Appearance) (now : Float)
    (hactive : t.active = false) : t.advance s a now = ⟨t, a, 0, []⟩ := by
  rw [advance, hactive]
  rfl

/-- What a tick does to the stack are steps, and so is what it dispatches. -/
theorem advance_steps (s : Script) (t : Thread) (a : Appearance) (now : Float) :
    ∃ t₀ a₀ t₁, Steps s now t₀ a₀ (t.advance s a now).dispatched t₁ (t.advance s a now).appearance ∧
      t₀.stack = t.stack ∧ t₁.stack = (t.advance s a now).thread.stack := by
  rcases advance_eq s t a now with ⟨action, a', heq⟩ | ⟨a', heq⟩
  · rw [heq]
    exact ⟨t, a', t, .refl, rfl, rfl⟩
  · rw [heq, settle_dispatched, settle_appearance, settle_stack]
    exact ⟨{ t with action := none }, a', _, run_steps budget _ a', rfl, rfl⟩

theorem Step.active (hstep : Step s now t a ds t' a') : t'.active = t.active := by
  cases hstep with
  | leave => rfl
  | again => rfl
  | skip => rfl
  | turn hstack hchild hi hturn =>
    have hactive := congrArg (fun result => result.1.active) hturn
    rw [dispatch_active] at hactive
    exact hactive.symm

theorem Steps.active (hsteps : Steps s now t a ds t' a') : t'.active = t.active := by
  induction hsteps with
  | refl => rfl
  | head first rest ih => exact ih.trans first.active

theorem stack_nil_of_advance (hdone : t.active = false → t.stack = [])
    (h : (t.advance s a now).thread.active = false) : (t.advance s a now).thread.stack = [] := by
  rcases advance_eq s t a now with ⟨action, a', heq⟩ | ⟨a', heq⟩
  · rw [heq] at h ⊢
    exact hdone h
  · rw [heq, settle_active, (run_steps budget _ a').active, Bool.and_eq_false_iff] at h
    rw [heq, settle_stack]
    rcases h with h | h
    · have hnil : ({ t with action := none } : Thread).stack = [] := hdone h
      rw [run_of_stack_nil budget a' hnil]
      exact hnil
    · simpa using h

def advances (s : Script) (t : Thread) (a : Appearance) : List Float → Advance
  | [] => ⟨t, a, 0, []⟩
  | now :: times =>
    let first := t.advance s a now
    let rest := advances s first.thread first.appearance times
    { rest with
      steps := first.steps + rest.steps
      dispatched := first.dispatched ++ rest.dispatched }

end BlockScript.Thread
