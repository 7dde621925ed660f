import BlockScript.Proofs.Thread.Blocked

namespace BlockScript

theorem Action.resume_of_isOver {action : Action} {now : Float} (h : action.IsOver now)
    (a : Appearance) : action.resume a now = (action.tween.finish a, true) :=
  if_pos h

namespace Thread

variable {s : Script} {now : Float} {t t' : Thread} {a a' : Appearance}

/-- What a thread does in one step. -/
inductive Move
  /-- The innermost container is left. -/
  | leave
  /-- The innermost container starts over, on a new frame. -/
  | again (frame : Frame)
  /-- A child that is not stored is passed over. -/
  | skip
  /-- A block has its turn, and the thread goes on. -/
  | turn (h : Handle)
  /-- A block has its turn and lets the thread wait until a time. -/
  | wait (h : Handle) (wakeTime : Float)
  /-- A block has its turn and begins a change. -/
  | change (h : Handle) (action : Action)

namespace Move

def dispatched? : Move → Option Handle
  | turn h | wait h _ | change h _ => some h
  | _ => none

/-- Whether a move sets a time to wait for, or begins a change. -/
def Suspends : Move → Prop
  | wait .. | change .. => True
  | _ => False

def StartsOver : Move → Prop
  | again _ => True
  | _ => False

end Move

/-- One step of a thread, with the move that it makes. Only a move that suspends the thread sets a
time to wait for or begins a change. -/
inductive Makes (s : Script) (now : Float) : Thread → Appearance → Move → Thread → Appearance → Prop
  | leave {t : Thread} {a : Appearance} {frame : Frame} {outer : List Frame}
      (hstack : t.stack = frame :: outer) (hend : (s.children frame.block)[frame.next]? = none)
      (hnext : nextRound? s frame = none) : Makes s now t a .leave { t with stack := outer } a
  | again {t : Thread} {a : Appearance} {frame next : Frame} {outer : List Frame}
      (hstack : t.stack = frame :: outer) (hend : (s.children frame.block)[frame.next]? = none)
      (hnext : nextRound? s frame = some next) :
      Makes s now t a (.again next) { t with stack := next :: outer } a
  | skip {t : Thread} {a : Appearance} {frame : Frame} {outer : List Frame} {child : Handle}
      (hstack : t.stack = frame :: outer)
      (hchild : (s.children frame.block)[frame.next]? = some child)
      (hnone : s.instruction? child = none) :
      Makes s now t a .skip { t with stack := { frame with next := frame.next + 1 } :: outer } a
  | turn {t : Thread} {a a' : Appearance} {frame : Frame} {outer stack : List Frame}
      {child : Handle} {instruction : Instruction} (hstack : t.stack = frame :: outer)
      (hchild : (s.children frame.block)[frame.next]? = some child)
      (hi : s.instruction? child = some instruction)
      (hturn : dispatch { t with stack := { frame with next := frame.next + 1 } :: outer } child
        instruction a now = ({ t with stack }, a', false)) :
      Makes s now t a (.turn child) { t with stack } a'
  | wait {t : Thread} {a : Appearance} {frame : Frame} {outer : List Frame} {child : Handle}
      {duration : Float} (hstack : t.stack = frame :: outer)
      (hchild : (s.children frame.block)[frame.next]? = some child)
      (hi : s.instruction? child = some (.wait duration)) :
      Makes s now t a (.wait child (now + duration))
        { t with
          stack := { frame with next := frame.next + 1 } :: outer
          wakeTime := now + duration } a
  | change {t : Thread} {a : Appearance} {frame : Frame} {outer : List Frame} {child : Handle}
      {instruction : Instruction} {action : Action} (hstack : t.stack = frame :: outer)
      (hchild : (s.children frame.block)[frame.next]? = some child)
      (hi : s.instruction? child = some instruction)
      (hturn : dispatch { t with stack := { frame with next := frame.next + 1 } :: outer } child
        instruction a now =
          ({ t with
            stack := { frame with next := frame.next + 1 } :: outer
            action := some action }, a, true)) :
      Makes s now t a (.change child action)
        { t with
          stack := { frame with next := frame.next + 1 } :: outer
          action := some action } a

inductive Moves (s : Script) (now : Float) :
    Thread → Appearance → List Move → Thread → Appearance → Prop
  | nil {t : Thread} {a : Appearance} : Moves s now t a [] t a
  | cons {t t' t'' : Thread} {a a' a'' : Appearance} {m : Move} {ms : List Move}
      (first : Makes s now t a m t' a') (rest : Moves s now t' a' ms t'' a'') :
      Moves s now t a (m :: ms) t'' a''

variable {m : Move} {ms : List Move} {result : Advance} {n : Nat}

theorem dispatch_cases (t : Thread) (h : Handle) (i : Instruction) (a : Appearance) (now : Float) :
    (∃ stack a', t.dispatch h i a now = ({ t with stack }, a', false)) ∨
      (∃ duration, i = .wait duration ∧
        t.dispatch h i a now = ({ t with wakeTime := now + duration }, a, true)) ∨
      ∃ action, t.dispatch h i a now = ({ t with action := some action }, a, true) := by
  cases i with
  | wait duration => exact .inr (.inl ⟨duration, rfl, rfl⟩)
  | move | rotate | scale =>
    simp only [dispatch, tween?]
    split
    · exact .inr (.inr ⟨_, rfl⟩)
    · exact .inl ⟨t.stack, _, rfl⟩
  | forever | loop => exact .inl ⟨_, a, rfl⟩
  | _ => exact .inl ⟨t.stack, _, rfl⟩

theorem Makes.unsuspended (hmakes : Makes s now t a m t' a') (hm : ¬ m.Suspends) :
    t'.wakeTime = t.wakeTime ∧ t'.action = t.action := by
  cases hmakes with
  | leave | again | skip | turn => exact ⟨rfl, rfl⟩
  | wait | change => exact absurd trivial hm

theorem Moves.unsuspended (hmoves : Moves s now t a ms t' a') (hms : ∀ m ∈ ms, ¬ m.Suspends) :
    t'.wakeTime = t.wakeTime ∧ t'.action = t.action := by
  induction hmoves with
  | nil => exact ⟨rfl, rfl⟩
  | cons first _ ih =>
    obtain ⟨hfirst, hrest⟩ := List.forall_mem_cons.1 hms
    obtain ⟨hwake, haction⟩ := first.unsuspended hfirst
    obtain ⟨hwake', haction'⟩ := ih hrest
    exact ⟨hwake'.trans hwake, haction'.trans haction⟩

/-- What the moves of a tick are like if there is budget for `n` of them: behind one that starts a
loop over or suspends the thread there is no other, and the former takes all of the budget. -/
structure Budgeted (n : Nat) (ms : List Move) (result : Advance) : Prop where
  length_le : ms.length ≤ n
  dispatched_eq : result.dispatched = ms.filterMap Move.dispatched?
  last : ms.Pairwise fun m _ => ¬ m.StartsOver ∧ ¬ m.Suspends
  steps_of_startsOver : ∀ m ∈ ms, m.StartsOver → result.steps = n
  steps_eq : (∀ m ∈ ms, ¬ m.StartsOver) → result.steps = ms.length

theorem Budgeted.nil (n : Nat) (t : Thread) (a : Appearance) : Budgeted n [] ⟨t, a, 0, []⟩ where
  length_le := n.zero_le
  dispatched_eq := rfl
  last := .nil
  steps_of_startsOver := nofun
  steps_eq := fun _ => rfl

theorem Budgeted.cons (hms : Budgeted n ms result) (hover : ¬ m.StartsOver)
    (hsuspends : ¬ m.Suspends) :
    Budgeted (n + 1) (m :: ms)
      { result with
        steps := result.steps + 1
        dispatched := m.dispatched?.toList ++ result.dispatched } where
  length_le := Nat.succ_le_succ hms.length_le
  dispatched_eq := by
    rw [hms.dispatched_eq]
    cases hm : m.dispatched? with
    | none => rw [List.filterMap_cons_none hm]; rfl
    | some h => rw [List.filterMap_cons_some hm]; rfl
  last := List.pairwise_cons.2 ⟨fun _ _ => ⟨hover, hsuspends⟩, hms.last⟩
  steps_of_startsOver := by
    intro m' hm' hover'
    rcases List.mem_cons.1 hm' with rfl | hm'
    · contradiction
    · exact congrArg (· + 1) (hms.steps_of_startsOver m' hm' hover')
  steps_eq := fun hovers => congrArg (· + 1) (hms.steps_eq (List.forall_mem_cons.1 hovers).2)

theorem Budgeted.suspended (n : Nat) (t : Thread) (a : Appearance) {h : Handle}
    (hover : ¬ m.StartsOver) (hdispatched : m.dispatched? = some h) :
    Budgeted (n + 1) [m] ⟨t, a, 1, [h]⟩ where
  length_le := Nat.le_add_left 1 n
  dispatched_eq := by
    rw [List.filterMap_cons_some hdispatched]
    rfl
  last := List.pairwise_singleton _ m
  steps_of_startsOver := by
    intro m' hm'
    obtain rfl := List.mem_singleton.1 hm'
    exact fun hover' => absurd hover' hover
  steps_eq := fun _ => rfl

theorem Budgeted.again (n : Nat) (t : Thread) (a : Appearance) (next : Frame) :
    Budgeted (n + 1) [.again next] ⟨t, a, n + 1, []⟩ where
  length_le := Nat.le_add_left 1 n
  dispatched_eq := rfl
  last := List.pairwise_singleton _ _
  steps_of_startsOver := fun _ _ _ => rfl
  steps_eq := fun hover => absurd trivial (hover _ (List.mem_singleton_self _))

theorem Budgeted.settle (hms : Budgeted n ms result) : Budgeted n ms (settle result) := by
  unfold Thread.settle
  split
  · exact { hms with }
  · exact hms

theorem Budgeted.steps_le (hms : Budgeted n ms result) : result.steps ≤ n := by
  by_cases hover : ∃ m ∈ ms, m.StartsOver
  · obtain ⟨m, hm, hover⟩ := hover
    exact Nat.le_of_eq (hms.steps_of_startsOver m hm hover)
  · rw [hms.steps_eq fun m hm hover' => hover ⟨m, hm, hover'⟩]
    exact hms.length_le

theorem Budgeted.length_le_steps (hms : Budgeted n ms result) : ms.length ≤ result.steps := by
  by_cases hover : ∃ m ∈ ms, m.StartsOver
  · obtain ⟨m, hm, hover⟩ := hover
    rw [hms.steps_of_startsOver m hm hover]
    exact hms.length_le
  · exact Nat.le_of_eq (hms.steps_eq fun m hm hover' => hover ⟨m, hm, hover'⟩).symm

theorem Budgeted.eq_nil_of_last (hms : Budgeted n ms result) {before after : List Move}
    (heq : ms = before ++ m :: after) (hm : m.StartsOver ∨ m.Suspends) : after = [] := by
  rw [List.eq_nil_iff_forall_not_mem]
  intro later hlater
  have hlast := hms.last
  rw [heq] at hlast
  have hbehind := List.pairwise_cons.1 (List.pairwise_append.1 hlast).2.1
  obtain ⟨hover, hsuspends⟩ := hbehind.1 later hlater
  exact hm.elim hover hsuspends

theorem Budgeted.dispatched_le_steps (hms : Budgeted n ms result) :
    result.dispatched.length ≤ result.steps := by
  rw [hms.dispatched_eq]
  exact Nat.le_trans (List.length_filterMap_le _ _) hms.length_le_steps

theorem run_moves (s : Script) (now : Float) (n : Nat) (t : Thread) (a : Appearance) :
    ∃ ms, Moves s now t a ms (run s now n t a).thread (run s now n t a).appearance ∧
      Budgeted n ms (run s now n t a) := by
  induction n generalizing t a with
  | zero => exact ⟨[], .nil, .nil 0 t a⟩
  | succ n ih =>
    rw [run]
    split
    · exact ⟨[], .nil, .nil _ t a⟩
    next frame outer hstack =>
    split
    · next hend =>
      split
      · next next hnext => exact ⟨_, .cons (.again hstack hend hnext) .nil, .again n _ a next⟩
      · next hnext =>
        obtain ⟨ms, hmoves, hms⟩ := ih { t with stack := outer } a
        exact ⟨_, .cons (.leave hstack hend hnext) hmoves, hms.cons id id⟩
    next child hchild =>
    dsimp only
    split
    · next hnone =>
      obtain ⟨ms, hmoves, hms⟩ :=
        ih { t with stack := { frame with next := frame.next + 1 } :: outer } a
      exact ⟨_, .cons (.skip hstack hchild hnone) hmoves, hms.cons id id⟩
    next i hi =>
    rcases dispatch_cases { t with stack := { frame with next := frame.next + 1 } :: outer } child
      i a now with ⟨stack, a', hturn⟩ | ⟨duration, rfl, hturn⟩ | ⟨action, hturn⟩
    · obtain ⟨ms, hmoves, hms⟩ := ih { t with stack } a'
      rw [hturn]
      exact ⟨_, .cons (.turn hstack hchild hi hturn) hmoves, hms.cons id id⟩
    · rw [hturn]
      exact ⟨_, .cons (.wait hstack hchild hi) .nil, .suspended n _ a id rfl⟩
    · rw [hturn]
      exact ⟨_, .cons (.change hstack hchild hi hturn) .nil, .suspended n _ a id rfl⟩

/-- Whether a thread is kept from going on, by a change that is not over or by a time to wait
for. -/
def Held (t : Thread) (now : Float) : Prop :=
  (∃ action, t.action = some action ∧ ¬ action.IsOver now) ∨ now < t.wakeTime

theorem wake_of_waiting (s : Script) (a : Appearance) (hwaiting : now < t.wakeTime) :
    wake s t a now = ⟨t, a, 0, []⟩ :=
  if_pos hwaiting

theorem advance_of_held (s : Script) (a : Appearance) (hheld : t.Held now) :
    ∃ action a', (action = t.action ∨ action = none) ∧
      t.advance s a now = ⟨{ t with action }, a', 0, []⟩ := by
  by_cases hactive : t.active = true
  · rw [advance, if_pos hactive]
    cases haction : t.action with
    | none =>
      have hwaiting : now < t.wakeTime := by
        apply hheld.resolve_left
        rintro ⟨action, hsome, _⟩
        rw [haction] at hsome
        contradiction
      exact ⟨t.action, a, .inl haction, wake_of_waiting s a hwaiting⟩
    | some action =>
      by_cases hover : action.IsOver now
      · have hwaiting : now < t.wakeTime := by
          apply hheld.resolve_left
          rintro ⟨other, hother, hnot⟩
          obtain rfl := Option.some.inj (haction.symm.trans hother)
          exact hnot hover
        simp only [action.resume_of_isOver hover]
        exact ⟨none, _, .inr rfl, wake_of_waiting s _ hwaiting⟩
      · obtain ⟨part, hresume⟩ := Action.resume_of_not_isOver hover a
        simp only [hresume]
        exact ⟨t.action, _, .inl haction, rfl⟩
  · exact ⟨t.action, a, .inl rfl, advance_of_inactive s a now (Bool.eq_false_iff.2 hactive)⟩

theorem advance_of_not_held (s : Script) (a : Appearance) (hactive : t.active = true)
    (hheld : ¬ t.Held now) :
    ∃ a', t.advance s a now = settle (run s now budget { t with action := none } a') := by
  obtain ⟨hover, hawake⟩ := not_or.1 hheld
  rw [advance, if_pos hactive]
  cases haction : t.action with
  | none =>
    have ht : t = { t with action := none } := by rw [← haction]
    refine ⟨a, ?_⟩
    rw [← ht]
    exact if_neg hawake
  | some action =>
    have hover : action.IsOver now := not_not.1 fun hnot => hover ⟨action, haction, hnot⟩
    simp only [action.resume_of_isOver hover]
    exact ⟨_, if_neg hawake⟩

theorem run_steps_pos (hn : 0 < n) (s : Script) (now : Float) (a : Appearance)
    (hstack : t.stack ≠ []) : 0 < (run s now n t a).steps := by
  obtain ⟨n, rfl⟩ := Nat.exists_eq_add_of_lt hn
  obtain ⟨frame, outer, hstack⟩ := List.exists_cons_of_ne_nil hstack
  rw [Nat.zero_add, run, hstack]
  dsimp only
  split
  · split <;> exact Nat.succ_pos _
  · split
    · exact Nat.succ_pos _
    · split <;> exact Nat.succ_pos _

@[simp] theorem settle_steps (result : Advance) : (settle result).steps = result.steps := by
  unfold settle
  split <;> rfl

theorem settle_thread (result : Advance) :
    (settle result).thread = { result.thread with active := (settle result).thread.active } := by
  unfold settle
  split <;> rfl

theorem steps_eq_zero_iff (s : Script) (a : Appearance) (hactive : t.active = true)
    (hstack : t.stack ≠ []) : (t.advance s a now).steps = 0 ↔ t.Held now := by
  by_cases hheld : t.Held now
  · obtain ⟨action, a', _, heq⟩ := advance_of_held s a hheld
    rw [heq]
    exact iff_of_true rfl hheld
  · obtain ⟨a', heq⟩ := advance_of_not_held s a hactive hheld
    have hpos : 0 < (run s now budget { t with action := none } a').steps :=
      run_steps_pos (by decide) s now a' hstack
    rw [heq, settle_steps]
    exact iff_of_false (Nat.ne_of_gt hpos) hheld

theorem advance_moves (s : Script) (t : Thread) (a : Appearance) (now : Float) :
    ∃ ms action a₀ t₁, Moves s now { t with action } a₀ ms t₁ (t.advance s a now).appearance ∧
      (t.advance s a now).thread = { t₁ with active := (t.advance s a now).thread.active } ∧
      (action = t.action ∧ ms = [] ∨ action = none) ∧ Budgeted budget ms (t.advance s a now) := by
  by_cases hactive : t.active = true
  · by_cases hheld : t.Held now
    · obtain ⟨action, a', haction, heq⟩ := advance_of_held s a hheld
      rw [heq]
      exact ⟨[], action, a', _, .nil, rfl, haction.imp_left fun h => ⟨h, rfl⟩, .nil _ _ _⟩
    · obtain ⟨a', heq⟩ := advance_of_not_held s a hactive hheld
      obtain ⟨ms, hmoves, hms⟩ := run_moves s now budget { t with action := none } a'
      rw [heq, settle_appearance]
      exact ⟨ms, none, a', _, hmoves, settle_thread _, .inr rfl, hms.settle⟩
  · rw [advance_of_inactive s a now (Bool.eq_false_iff.2 hactive)]
    exact ⟨[], t.action, a, t, .nil, rfl, .inl ⟨rfl, rfl⟩, .nil _ _ _⟩

/-- Whatever the script and the thread are like, a tick makes at most twenty moves. A loop that
starts over and a block that suspends the thread are the last one of their tick, so that there is
at most one of them, and nothing is dispatched behind it; the former takes the whole budget. A
thread that has something to do takes no step only if it is kept from going on, by a change that is
not over or a time to wait for, and then its stack stays as it is and nothing is dispatched. -/
theorem advance_within_budget (s : Script) (t : Thread) (a : Appearance) (now : Float) :
    let result := t.advance s a now
    (∃ ms action a₀ t₁, Moves s now { t with action } a₀ ms t₁ result.appearance ∧
        result.thread = { t₁ with active := result.thread.active } ∧
        (action = t.action ∧ ms = [] ∨ action = none) ∧
        ms.length ≤ 20 ∧ result.dispatched = ms.filterMap Move.dispatched? ∧
        (∀ before m after, ms = before ++ m :: after → m.StartsOver ∨ m.Suspends → after = []) ∧
        (∀ m ∈ ms, m.StartsOver → result.steps = 20) ∧
        ((∀ m ∈ ms, ¬ m.StartsOver) → result.steps = ms.length) ∧
        ((∀ m ∈ ms, ¬ m.Suspends) →
          result.thread.wakeTime = t.wakeTime ∧ result.thread.action = action)) ∧
      result.dispatched.length ≤ result.steps ∧ result.steps ≤ 20 ∧
      (t.active = true → t.stack ≠ [] → (result.steps = 0 ↔ t.Held now)) ∧
      (t.Held now → result.thread.stack = t.stack ∧ result.dispatched = []) := by
  intro result
  obtain ⟨ms, action, a₀, t₁, hmoves, hthread, haction, hms⟩ := advance_moves s t a now
  refine ⟨⟨ms, action, a₀, t₁, hmoves, hthread, haction, hms.length_le, hms.dispatched_eq,
    fun _ _ _ => hms.eq_nil_of_last, hms.steps_of_startsOver, hms.steps_eq, ?_⟩,
    hms.dispatched_le_steps, hms.steps_le, fun hactive => steps_eq_zero_iff s a hactive, ?_⟩
  · intro hunsuspended
    obtain ⟨hwake, hkept⟩ := hmoves.unsuspended hunsuspended
    have hthread : result.thread = { t₁ with active := result.thread.active } := hthread
    rw [hthread]
    exact ⟨hwake, hkept⟩
  · intro hheld
    obtain ⟨kept, a', _, heq⟩ := advance_of_held s a hheld
    have heq : result = ⟨{ t with action := kept }, a', 0, []⟩ := heq
    rw [heq]
    exact ⟨rfl, rfl⟩

end Thread

end BlockScript
