import BlockScript.Proofs.Instruction.Range
import BlockScript.Proofs.Thread.Ending
import BlockScript.Proofs.Thread.Forever

namespace BlockScript

theorem Unrolling.times_finite (xs : List Handle) (count : Nat) :
    (finite xs).times count = finite (List.replicate count xs).flatten := by
  induction count with
  | zero => rfl
  | succ count ih => rw [times, ih, append, List.replicate_succ, List.flatten_cons]

def Script.pulsing : Script :=
  (empty "script-1" "Pulsing").after [.insert "start" .onStart none,
    .insert "thrice" (.loop 3) (some ⟨0, 0⟩), .insert "red" (.paint ⟨255, 0, 0⟩) (some ⟨1, 0⟩),
    .insert "white" (.paint .white) (some ⟨1, 0⟩),
    .insert "black" (.paint ⟨0, 0, 0⟩) (some ⟨0, 0⟩)]

theorem Script.pulsing_wellFormed : Script.pulsing.WellFormed :=
  (Sound.empty _ _).after _

namespace Thread

variable {s : Script} {now : Float} {t t' : Thread} {a a' : Appearance} {ds xs ys : List Handle}
  {frame : Frame} {inner outer base stack : List Frame} {h : Handle} {i : Instruction}
  {ticks : List (Float × Appearance)} {n : Nat}

/-- As long as there are containers above some others, a step does not depend on these. -/
theorem Step.of_append (hstep : Step s now t a ds t' a') (hstack : t.stack = inner ++ base)
    (hinner : inner ≠ []) :
    ∃ inner', t'.stack = inner' ++ base ∧
      Step s now { t with stack := inner } a ds { t' with stack := inner' } a' := by
  obtain ⟨first, rest, rfl⟩ := List.exists_cons_of_ne_nil hinner
  cases hstep with
  | leave hstack' hend hnext =>
    obtain ⟨rfl, rfl⟩ := List.cons.inj (hstack'.symm.trans hstack)
    exact ⟨rest, rfl, .leave rfl hend hnext⟩
  | again hstack' hend hnext =>
    obtain ⟨rfl, rfl⟩ := List.cons.inj (hstack'.symm.trans hstack)
    exact ⟨_ :: rest, rfl, .again rfl hend hnext⟩
  | skip hstack' hchild hnone =>
    obtain ⟨rfl, rfl⟩ := List.cons.inj (hstack'.symm.trans hstack)
    exact ⟨_ :: rest, rfl, .skip rfl hchild hnone⟩
  | @turn _ _ _ _ _ child instruction _ hstack' hchild hi hturn =>
    obtain ⟨rfl, rfl⟩ := List.cons.inj (hstack.symm.trans hstack')
    let moved : Thread := { t with stack := { first with next := first.next + 1 } :: rest }
    have hmoved := (dispatch_on moved base child instruction a now).symm.trans hturn
    obtain ⟨rfl, hresult⟩ := Prod.mk.inj hmoved
    exact ⟨(moved.dispatch child instruction a now).1.stack, rfl,
      .turn rfl hchild hi (Prod.ext rfl hresult)⟩

theorem Step.turn_of_child (hstep : Step s now t a ds t' a') (hstack : t.stack = frame :: outer)
    (hchild : (s.children frame.block)[frame.next]? = some h) (hi : s.instruction? h = some i) :
    ds = [h] ∧
      t'.stack = (entered? h i).toList ++ { frame with next := frame.next + 1 } :: outer := by
  cases hstep with
  | leave hstack' hend hnext =>
    obtain ⟨rfl, rfl⟩ := List.cons.inj (hstack.symm.trans hstack')
    rw [hchild] at hend
    contradiction
  | again hstack' hend hnext =>
    obtain ⟨rfl, rfl⟩ := List.cons.inj (hstack.symm.trans hstack')
    rw [hchild] at hend
    contradiction
  | skip hstack' hchild' hnone =>
    obtain ⟨rfl, rfl⟩ := List.cons.inj (hstack.symm.trans hstack')
    obtain rfl := Option.some.inj (hchild.symm.trans hchild')
    rw [hi] at hnone
    contradiction
  | turn hstack' hchild' hi' hturn =>
    obtain ⟨rfl, rfl⟩ := List.cons.inj (hstack.symm.trans hstack')
    obtain rfl := Option.some.inj (hchild.symm.trans hchild')
    obtain rfl := Option.some.inj (hi.symm.trans hi')
    have hentered := congrArg (fun result => result.1.stack) hturn
    rw [dispatch_stack] at hentered
    exact ⟨rfl, hentered.symm⟩

/-- The blocks that are dispatched from a stack until another one is reached, and how many steps
this takes at most. It begins at a child of the innermost container or inside of it. -/
inductive Until (s : Script) (base : List Frame) : List Frame → List Handle → Nat → Prop
  | child {frame : Frame} {outer : List Frame} {h : Handle} {i : Instruction} {xs : List Handle}
      (hbase : base = { frame with next := frame.next + 1 } :: outer)
      (hchild : (s.children frame.block)[frame.next]? = some h) (hi : s.instruction? h = some i)
      (hfinite : remaining s (entered? h i).toList = .finite xs) :
      Until s base (frame :: outer) (h :: xs) (costs s (entered? h i).toList + 1)
  | inner {inner : List Frame} {xs : List Handle} (hrange : ∀ frame ∈ inner, frame.InRange)
      (hfinite : remaining s inner = .finite xs) : Until s base (inner ++ base) xs (costs s inner)

theorem Until.eq_nil (huntil : Until s base stack xs n) (hn : n = 0) : xs = [] := by
  cases huntil with
  | child => contradiction
  | inner _ hfinite =>
    obtain rfl := stack_nil_of_costs hn
    exact (Unrolling.finite.inj hfinite).symm

theorem Until.step (hs : s.WellFormed) (huntil : Until s base stack xs n) (hn : n ≠ 0)
    (hstep : Step s now t a ds t' a') (hstack : t.stack = stack) :
    ∃ ys m, xs = ds ++ ys ∧ m < n ∧ Until s base t'.stack ys m := by
  cases huntil with
  | @child frame outer h i xs hbase hchild hi hfinite =>
    obtain ⟨rfl, hstack'⟩ := hstep.turn_of_child hstack hchild hi
    rw [hstack', ← hbase]
    have hrange : ∀ frame ∈ (entered? h i).toList, frame.InRange :=
      fun _ hframe => inRange_of_entered (Option.mem_toList.1 hframe)
    exact ⟨xs, _, rfl, Nat.lt_succ_self _, .inner hrange hfinite⟩
  | @inner inner xs hrange hfinite =>
    have hinner : inner ≠ [] := by
      rintro rfl
      exact hn rfl
    obtain ⟨inner', hstack', hstep'⟩ := hstep.of_append hstack hinner
    obtain ⟨hremaining, hrange'⟩ := hstep'.remaining_eq hs hrange
    have hsplit := hremaining.symm.trans hfinite
    obtain ⟨_, ys, hds, hfinite'⟩ := Unrolling.finite_of_append hsplit
    have hlt := hstep'.costs_lt hs hrange hfinite'
    obtain rfl := Unrolling.finite.inj hds
    rw [hfinite'] at hsplit
    rw [hstack']
    exact ⟨ys, _, (Unrolling.finite.inj hsplit).symm, hlt, .inner hrange' hfinite'⟩

theorem Until.steps (hs : s.WellFormed) (huntil : Until s base stack xs n)
    (hsteps : Steps s now t a ds t' a') (hstack : t.stack = stack) :
    (∃ ys m, xs = ds ++ ys ∧ m ≤ n ∧ Until s base t'.stack ys m) ∨ xs <+: ds := by
  induction hsteps generalizing stack xs n with
  | refl =>
    subst hstack
    exact .inl ⟨xs, n, rfl, Nat.le_refl n, huntil⟩
  | head first _ ih =>
    by_cases hn : n = 0
    · rw [huntil.eq_nil hn]
      exact .inr List.nil_prefix
    · obtain ⟨ys, m, rfl, hm, huntil'⟩ := huntil.step hs hn first hstack
      rcases ih huntil' rfl with ⟨zs, k, rfl, hk, huntil''⟩ | hreached
      · exact .inl ⟨zs, k, (List.append_assoc ..).symm, hk.trans hm.le, huntil''⟩
      · exact .inr ((List.prefix_append_right_inj _).2 hreached)

theorem Until.advance (hs : s.WellFormed) (huntil : Until s base t.stack xs n) (a : Appearance)
    (now : Float) :
    (∃ ys m, xs = (t.advance s a now).dispatched ++ ys ∧
      m + (if (t.advance s a now).steps ≠ 0 then 1 else 0) ≤ n ∧
      Until s base (t.advance s a now).thread.stack ys m) ∨
    xs <+: (t.advance s a now).dispatched := by
  rcases advance_eq s t a now with ⟨action, a', heq⟩ | ⟨a', heq⟩
  · rw [heq]
    exact .inl ⟨xs, n, rfl, Nat.le_refl n, huntil⟩
  · rw [heq, settle_dispatched, settle_stack, settle_steps]
    by_cases hn : n = 0
    · rw [huntil.eq_nil hn]
      exact .inr List.nil_prefix
    by_cases hstack : t.stack = []
    · have hempty : ({ t with action := none } : Thread).stack = [] := hstack
      rw [run_of_stack_nil budget a' hempty]
      exact .inl ⟨xs, n, rfl, Nat.le_refl n, huntil⟩
    · obtain ⟨ds, t', a'', ds', hfirst, hrest, hdispatched⟩ :=
        run_head (t := { t with action := none }) (by decide : 0 < budget) s now a' hstack
      rw [hdispatched]
      obtain ⟨ys, m, rfl, hm, huntil'⟩ := huntil.step hs hn hfirst rfl
      rcases huntil'.steps hs hrest rfl with ⟨zs, k, rfl, hk, huntil''⟩ | hreached
      · refine .inl ⟨zs, k, (List.append_assoc ..).symm, ?_, huntil''⟩
        split <;> omega
      · exact .inr ((List.prefix_append_right_inj _).2 hreached)

/-- After some ticks a thread is nearer to the other stack by those with steps, or it has dispatched
everything on the way to it. -/
theorem Until.after (hs : s.WellFormed) (huntil : Until s base t.stack xs n)
    (ticks : List (Float × Appearance)) :
    (∃ ys m, xs = t.dispatchedIn s ticks ++ ys ∧ m + (t.stepsIn s ticks).countP (· ≠ 0) ≤ n ∧
      Until s base (t.after s ticks).stack ys m) ∨
    xs <+: t.dispatchedIn s ticks := by
  induction ticks generalizing t xs n with
  | nil => exact .inl ⟨xs, n, rfl, Nat.le_refl n, huntil⟩
  | cons tick ticks ih =>
    rw [dispatchedIn, stepsIn, List.countP_cons]
    simp only [decide_eq_true_eq]
    rcases huntil.advance hs tick.2 tick.1 with ⟨ys, m, rfl, hm, huntil'⟩ | hreached
    · rcases ih huntil' with ⟨zs, k, rfl, hk, huntil''⟩ | hreached
      · exact .inl ⟨zs, k, (List.append_assoc ..).symm, by omega, huntil''⟩
      · exact .inr ((List.prefix_append_right_inj _).2 hreached)
    · exact .inr (hreached.trans (List.prefix_append _ _))

theorem Until.prefix_of_steps (hs : s.WellFormed) (huntil : Until s base t.stack xs n)
    (hcount : n ≤ (t.stepsIn s ticks).countP (· ≠ 0)) : xs <+: t.dispatchedIn s ticks := by
  rcases huntil.after hs ticks with ⟨ys, m, rfl, hm, huntil'⟩ | hreached
  · rw [huntil'.eq_nil (by omega), List.append_nil]
  · exact hreached

theorem Until.stack_ne_nil (huntil : Until s base stack xs n) (hxs : xs ≠ []) : stack ≠ [] := by
  intro hstack
  cases huntil with
  | child => contradiction
  | inner hrange hfinite =>
    obtain ⟨rfl, _⟩ := List.append_eq_nil_iff.1 hstack
    exact hxs (Unrolling.finite.inj hfinite).symm

theorem remaining_eq_dispatchedIn_append (hs : s.WellFormed)
    (hrange : ∀ frame ∈ t.stack, frame.InRange) (ticks : List (Float × Appearance)) :
    remaining s t.stack =
      (Unrolling.finite (t.dispatchedIn s ticks)).append (remaining s (t.after s ticks).stack) := by
  induction ticks generalizing t with
  | nil => exact (Unrolling.nil_append _).symm
  | cons tick ticks ih =>
    obtain ⟨hfirst, hrange'⟩ := remaining_advance hs hrange tick.2 tick.1
    rw [hfirst, ih hrange', ← Unrolling.append_assoc]
    rfl

/-- Whether a thread with a block to come next runs the body of that block so many times and then
goes on with what is around it. It dispatches everything in this order. A body that comes to an end
is run to the end every time, if there are enough ticks in which the thread is not held up. -/
structure RunsBody (s : Script) (h : Handle) (count : Nat) (base : List Frame) (t : Thread)
    (ticks : List (Float × Appearance)) : Prop where
  startsWith : ((Unrolling.finite [h]).append (((s.unrolling h).times count).append
    (remaining s base))).StartsWith (t.dispatchedIn s ticks)
  completed : ∀ xs, s.unrolling h = .finite xs →
    Tree.costAll (s.trees [h]) ≤ (t.stepsIn s ticks).countP (· ≠ 0) →
      h :: (List.replicate count xs).flatten <+: t.dispatchedIn s ticks
  goesOn : ∀ xs, s.unrolling h = .finite xs → t.active = true →
    ¬ h :: (List.replicate count xs).flatten <+: t.dispatchedIn s ticks →
      (t.after s ticks).active = true ∧
        ∀ a now, ¬ (t.after s ticks).Held now → ((t.after s ticks).advance s a now).steps ≠ 0

theorem remaining_entered_loop {times : UInt32} (hi : s.instruction? h = some (.loop times))
    (hpos : 1 ≤ times.toNat) :
    remaining s (entered? h (.loop times)).toList = (s.unrolling h).times times.toNat := by
  have hrounds : rounds s ⟨h, 0, some 0⟩ = (s.unrolling h).times (times.toNat - 1) := by
    rw [rounds, hi]
    rfl
  have hsucc : times.toNat - 1 + 1 = times.toNat := Nat.sub_add_cancel hpos
  rw [entered?, Option.toList, remaining_singleton, rest_zero, hrounds]
  exact congrArg (s.unrolling h).times hsucc

theorem remaining_of_child (hs : s.WellFormed) (hstack : t.stack = frame :: outer)
    (hrange : ∀ frame ∈ t.stack, frame.InRange)
    (hchild : (s.children frame.block)[frame.next]? = some h) (hi : s.instruction? h = some i) :
    remaining s t.stack = (Unrolling.finite [h]).append
      ((remaining s (entered? h i).toList).append
        (remaining s ({ frame with next := frame.next + 1 } :: outer))) := by
  have hstep : Step s 0 t .default [h] _ _ := .turn hstack hchild hi rfl
  rw [← remaining_append, ← (hstep.turn_of_child hstack hchild hi).2]
  exact (hstep.remaining_eq hs hrange).1

theorem runsBody_of_loop {times : UInt32} (hs : s.WellFormed)
    (hi : s.instruction? h = some (.loop times)) (hpos : 1 ≤ times.toNat)
    (hstack : t.stack = frame :: outer) (hrange : ∀ frame ∈ t.stack, frame.InRange)
    (hchild : (s.children frame.block)[frame.next]? = some h)
    (ticks : List (Float × Appearance)) :
    RunsBody s h times.toNat ({ frame with next := frame.next + 1 } :: outer) t ticks := by
  have hbody := remaining_entered_loop hi hpos
  have huntil : ∀ xs, s.unrolling h = .finite xs →
      Until s ({ frame with next := frame.next + 1 } :: outer) t.stack
        (h :: (List.replicate times.toNat xs).flatten)
        (costs s (entered? h (.loop times)).toList + 1) := by
    intro xs hxs
    rw [hstack]
    apply Until.child rfl hchild hi
    rw [hbody, hxs, Unrolling.times_finite]
  constructor
  case startsWith =>
    rw [← hbody, ← remaining_of_child hs hstack hrange hchild hi,
      remaining_eq_dispatchedIn_append hs hrange ticks]
    exact Unrolling.startsWith_append _ _
  case completed =>
    intro xs hxs hcount
    have hforever : ¬ s.IsForever h := fun hforever => nomatch hi.symm.trans hforever
    rw [cost_eq_costs_entered hs hi hforever] at hcount
    exact (huntil xs hxs).prefix_of_steps hs (by omega)
  case goesOn =>
    intro xs hxs hactive hmissing
    have hkept : (t.after s ticks).active = !(t.after s ticks).stack.isEmpty :=
      after_of_advance (P := fun t => t.active = !t.stack.isEmpty) (by rw [hactive, hstack]; rfl)
        fun _ a now h => active_advance h a now
    rcases (huntil xs hxs).after hs ticks with ⟨ys, m, heq, _, hleft⟩ | hreached
    · have hys : ys ≠ [] := by
        rintro rfl
        rw [heq, List.append_nil] at hmissing
        exact hmissing List.prefix_rfl
      have hnonempty := hleft.stack_ne_nil hys
      have hstill : (t.after s ticks).active = true := by simpa [hkept] using hnonempty
      exact ⟨hstill, fun a now hheld => mt (steps_eq_zero_iff s a hstill hnonempty).1 hheld⟩
    · exact absurd hreached hmissing

/-- Whatever the parameters say and however often there are new ones, an instruction stays one of
its type, every count in it is at least one, and every duration is a finite number that is not below
zero. A count that is given is rounded up and held in that range, and a thread that comes to the
loop runs its body exactly that often. -/
theorem authored_in_range {opcode : Opcode} (hi : Instruction.Authored opcode i) :
    i.opcode? = some opcode ∧ (∀ field ∈ i.fields, field.2.InRange) ∧
      ∀ (ps : Params) (value : Param) (count : Float), opcode = .loop →
        ps["times"]? = some value → value.number? = some count →
          ∃ times, (i.configure ps).value = .loop times ∧
            (Instruction.ofParams .loop ps).value = .loop times ∧
            (times.toNat : ℤ) = max 1 (min ⌈Number.exact count⌉ (2 ^ 32 - 1)) ∧
            ∀ {s : Script} {h : Handle} {t : Thread} {frame : Frame} {outer : List Frame},
              s.WellFormed → s.instruction? h = some (.loop times) → t.stack = frame :: outer →
                (∀ frame ∈ t.stack, frame.InRange) →
                  (s.children frame.block)[frame.next]? = some h → ∀ ticks,
                    RunsBody s h times.toNat ({ frame with next := frame.next + 1 } :: outer)
                      t ticks := by
  refine ⟨hi.opcode_eq, hi.inRange, ?_⟩
  rintro ps value count rfl hgiven hcount
  have hrounds := Instruction.toNat_rounds (Param.number?_eq_some_iff.1 hcount).isFinite
  refine ⟨Instruction.rounds count, Instruction.configure_loop hi.opcode_eq hgiven hcount,
    Instruction.configure_loop rfl hgiven hcount, hrounds, ?_⟩
  intro s h t frame outer hs hloop hstack hrange hchild ticks
  exact runsBody_of_loop hs hloop (by omega) hstack hrange hchild ticks

theorem authored_in_range_pulsing :
    let ps : Params := (∅ : Params).insert "times" (.text " 2.5 ")
    let i := ((Instruction.authoringDefault .loop).configure ps).value
    let t := start ⟨0, 0⟩
    let ticks := [(0, .default), (0, .default), (0, .default)]
    Instruction.Authored .loop i ∧ i = .loop 3 ∧ Script.pulsing.instruction? ⟨1, 0⟩ = some i ∧
      t.dispatchedIn .pulsing ticks =
        [⟨1, 0⟩, ⟨2, 0⟩, ⟨3, 0⟩, ⟨2, 0⟩, ⟨3, 0⟩, ⟨2, 0⟩, ⟨3, 0⟩, ⟨4, 0⟩] ∧
      RunsBody .pulsing ⟨1, 0⟩ 3 [⟨⟨0, 0⟩, 1, none⟩] t ticks := by
  intro ps i t ticks
  have hdropped : Instruction.Authored .loop (Instruction.authoringDefault .loop) := .dropped
  obtain ⟨_, _, hcounts⟩ := authored_in_range hdropped
  obtain ⟨times, htimes, _, _, hruns⟩ :=
    hcounts ps (.text " 2.5 ") 2.5 rfl Std.ExtTreeMap.getElem?_insert_self (by decide +kernel)
  have hthree : i = .loop 3 := by decide +kernel
  obtain rfl := Instruction.loop.inj (htimes.symm.trans hthree)
  have hloop : Script.pulsing.instruction? ⟨1, 0⟩ = some (.loop 3) := by decide +kernel
  have hstack : t.stack = [⟨⟨0, 0⟩, 0, none⟩] := rfl
  have hchild : (Script.pulsing.children ⟨0, 0⟩)[0]? = some ⟨1, 0⟩ := by decide +kernel
  have hbody := hruns Script.pulsing_wellFormed hloop hstack (inRange_start _) hchild ticks
  exact ⟨hdropped.configured ps, hthree, hloop.trans (congrArg some hthree.symm),
    by decide +kernel, hbody⟩

end Thread

end BlockScript
