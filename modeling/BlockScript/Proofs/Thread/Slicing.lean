import BlockScript.Proofs.Thread.Cost

namespace BlockScript

/-- Whether a block neither holds a thread up nor keeps it from its end. -/
def Instruction.Instant : Instruction → Prop
  | .forever | .wait _ => False
  | .move _ _ duration | .rotate _ _ duration | .scale _ duration => ¬ 0 < duration
  | _ => True

instance : DecidablePred Instruction.Instant
  | .forever | .wait _ => inferInstanceAs (Decidable False)
  | .move _ _ duration | .rotate _ _ duration | .scale _ duration =>
    inferInstanceAs (Decidable (¬ 0 < duration))
  | .onStart | .onClick | .loop _ | .branch | .paint _ | .unsupported _ =>
    inferInstanceAs (Decidable True)

/-- The vector of an axis, each of its components times an amount. -/
def Axis.times : Axis → Float32 → Vec3
  | .x, amount => ⟨1 * amount, 0 * amount, 0 * amount⟩
  | .y, amount => ⟨0 * amount, 1 * amount, 0 * amount⟩
  | .z, amount => ⟨0 * amount, 0 * amount, 1 * amount⟩

/-- What a block makes of an object if it takes no time. A move goes along the object's own axes as
they are turned at that moment. -/
def Instruction.effect (a : Appearance) : Instruction → Appearance
  | .paint color => { transform := a.transform, color := color }
  | .move axis distance _ =>
    let angles := a.transform.rotation
    let turn := Rotation.aroundX angles.x * Rotation.aroundY angles.y * Rotation.aroundZ angles.z
    { transform :=
        { position := a.transform.position + turn.apply (axis.times distance)
          rotation := a.transform.rotation
          scale := a.transform.scale }
      color := a.color }
  | .rotate axis angle _ =>
    { transform :=
        { position := a.transform.position
          rotation := a.transform.rotation + axis.times (radians angle)
          scale := a.transform.scale }
      color := a.color }
  | .scale factor _ =>
    { transform :=
        { position := a.transform.position
          rotation := a.transform.rotation
          scale := ⟨factor, factor, factor⟩ }
      color := a.color }
  | _ => a

def Script.effect (s : Script) (a : Appearance) (h : Handle) : Appearance :=
  match s.instruction? h with
  | some i => i.effect a
  | none => a

/-- A script that twice moves an object ahead, turns it and makes it larger. -/
def Script.striding : Script :=
  (empty "script-1" "Striding").after [.insert "start" .onStart none,
    .insert "twice" (.loop 2) (some ⟨0, 0⟩), .insert "ahead" (.move .x 2 0) (some ⟨1, 0⟩),
    .insert "turn" (.rotate .y 90 0) (some ⟨1, 0⟩), .insert "grow" (.scale 1.5 0) (some ⟨1, 0⟩)]

namespace Thread

variable {s : Script} {now : Float} {t t' : Thread} {a a' : Appearance} {ds xs : List Handle}
  {root h : Handle} {i : Instruction}

theorem dispatch_of_instant (t : Thread) (h : Handle) (a : Appearance) (now : Float)
    (hinstant : i.Instant) :
    t.dispatch h i a now =
      ({ t with stack := (entered? h i).toList ++ t.stack }, i.effect a, false) := by
  cases i with
  | forever => exact hinstant.elim
  | wait duration => exact hinstant.elim
  | move axis distance duration => cases axis <;> exact if_neg hinstant
  | rotate axis angle duration => cases axis <;> exact if_neg hinstant
  | scale factor duration => exact if_neg hinstant
  | _ => rfl

/-- A thread that nothing holds up, and the blocks that it still has to dispatch. -/
structure Calm (s : Script) (t : Thread) (xs : List Handle) : Prop where
  action : t.action = none
  wakeTime : t.wakeTime = 0
  inRange : ∀ frame ∈ t.stack, frame.InRange
  remaining_eq : remaining s t.stack = .finite xs
  instant : ∀ h ∈ xs, ∀ i, s.instruction? h = some i → i.Instant

theorem Step.of_instant (hstep : Step s now t a ds t' a')
    (hinstant : ∀ h ∈ ds, ∀ i, s.instruction? h = some i → i.Instant) :
    t'.action = t.action ∧ t'.wakeTime = t.wakeTime ∧ a' = ds.foldl s.effect a := by
  cases hstep with
  | leave => exact ⟨rfl, rfl, rfl⟩
  | again => exact ⟨rfl, rfl, rfl⟩
  | skip => exact ⟨rfl, rfl, rfl⟩
  | turn hstack hchild hi hturn =>
    have hi' := hinstant _ (List.mem_cons_self ..) _ hi
    rw [dispatch_of_instant _ _ _ _ hi'] at hturn
    cases hturn
    rw [List.foldl_cons, List.foldl_nil, Script.effect, hi]
    exact ⟨rfl, rfl, rfl⟩

theorem Step.calm (hs : s.WellFormed) (hstep : Step s now t a ds t' a') (hcalm : Calm s t xs) :
    ∃ ys, xs = ds ++ ys ∧ Calm s t' ys ∧ a' = ds.foldl s.effect a ∧
      costs s t'.stack < costs s t.stack := by
  obtain ⟨hremaining, hrange⟩ := hstep.remaining_eq hs hcalm.inRange
  rw [hcalm.remaining_eq] at hremaining
  obtain ⟨_, ys, _, hys⟩ := Unrolling.finite_of_append hremaining.symm
  rw [hys] at hremaining
  obtain rfl : xs = ds ++ ys := Unrolling.finite.inj hremaining
  obtain ⟨hfirst, hrest⟩ := List.forall_mem_append.1 hcalm.instant
  obtain ⟨haction, hwakeTime, happearance⟩ := hstep.of_instant hfirst
  have hcalm' : Calm s t' ys :=
    { action := haction.trans hcalm.action
      wakeTime := hwakeTime.trans hcalm.wakeTime
      inRange := hrange
      remaining_eq := hys
      instant := hrest }
  exact ⟨ys, rfl, hcalm', happearance, hstep.costs_lt hs hcalm.inRange hys⟩

theorem Steps.calm (hs : s.WellFormed) (hsteps : Steps s now t a ds t' a') (hcalm : Calm s t xs) :
    ∃ ys, xs = ds ++ ys ∧ Calm s t' ys ∧ a' = ds.foldl s.effect a ∧
      costs s t'.stack ≤ costs s t.stack := by
  induction hsteps generalizing xs with
  | refl => exact ⟨xs, rfl, hcalm, rfl, Nat.le_refl _⟩
  | head first rest ih =>
    obtain ⟨ys, rfl, hcalm', rfl, hfirst⟩ := first.calm hs hcalm
    obtain ⟨zs, rfl, hcalm'', rfl, hrest⟩ := ih hcalm'
    have hcosts := Nat.le_trans hrest (Nat.le_of_lt hfirst)
    exact ⟨zs, (List.append_assoc ..).symm, hcalm'', List.foldl_append.symm, hcosts⟩

theorem Calm.settle {result : Advance} (hcalm : Calm s result.thread xs) :
    Calm s (settle result).thread xs where
  action := (settle_action result).trans hcalm.action
  wakeTime := (settle_wakeTime result).trans hcalm.wakeTime
  inRange := by
    rw [settle_stack]
    exact hcalm.inRange
  remaining_eq := by
    rw [settle_stack]
    exact hcalm.remaining_eq
  instant := hcalm.instant

theorem Calm.advance (hs : s.WellFormed) (hcalm : Calm s t xs)
    (hactive : t.active = !t.stack.isEmpty) (a : Appearance) (hnow : ¬ now < 0) :
    ∃ ys, xs = (t.advance s a now).dispatched ++ ys ∧ Calm s (t.advance s a now).thread ys ∧
      (t.advance s a now).appearance = (t.advance s a now).dispatched.foldl s.effect a ∧
      (t.advance s a now).thread.active = !(t.advance s a now).thread.stack.isEmpty ∧
      costs s (t.advance s a now).thread.stack ≤ costs s t.stack - 1 := by
  by_cases hstack : t.stack = []
  · rw [hstack] at hactive
    rw [advance_of_inactive s a now hactive]
    refine ⟨xs, rfl, hcalm, rfl, by rw [hactive, hstack], ?_⟩
    rw [hstack]
    exact Nat.zero_le _
  · have hactive' : t.active = true := by
      rw [hactive, Bool.not_eq_true', List.isEmpty_eq_false_iff]
      exact hstack
    have hawake : ¬ now < t.wakeTime := by rwa [hcalm.wakeTime]
    rw [advance_of_ready s a hactive' hcalm.action hawake]
    obtain ⟨ds, t', a', ds', hfirst, hrest, hd⟩ := run_head (by decide : 0 < budget) s now a hstack
    obtain ⟨ys, rfl, hcalm', rfl, hless⟩ := hfirst.calm hs hcalm
    obtain ⟨zs, rfl, hcalm'', happearance, hle⟩ := hrest.calm hs hcalm'
    refine ⟨zs, ?_, hcalm''.settle, ?_, ?_, ?_⟩
    · rw [settle_dispatched, hd, List.append_assoc]
    · rw [settle_appearance, settle_dispatched, happearance, hd, List.foldl_append]
    · rw [settle_active, settle_stack, hrest.active, hfirst.active, hactive', Bool.true_and]
    · rw [settle_stack]
      omega

theorem Calm.advances (hs : s.WellFormed) (hcalm : Calm s t xs)
    (hactive : t.active = !t.stack.isEmpty) (a : Appearance) (times : List Float)
    (htimes : ∀ now ∈ times, ¬ now < 0) :
    ∃ ys, xs = (t.advances s a times).dispatched ++ ys ∧ Calm s (t.advances s a times).thread ys ∧
      (t.advances s a times).appearance = (t.advances s a times).dispatched.foldl s.effect a ∧
      (t.advances s a times).thread.active = !(t.advances s a times).thread.stack.isEmpty ∧
      costs s (t.advances s a times).thread.stack ≤ costs s t.stack - times.length := by
  induction times generalizing t a xs with
  | nil => exact ⟨xs, rfl, hcalm, rfl, hactive, Nat.le_refl _⟩
  | cons now times ih =>
    obtain ⟨hnow, htimes⟩ := List.forall_mem_cons.1 htimes
    obtain ⟨ys, rfl, hcalm', happearance, hactive', hfirst⟩ := hcalm.advance hs hactive a hnow
    obtain ⟨zs, rfl, hcalm'', happearance', hactive'', hrest⟩ :=
      ih hcalm' hactive' (t.advance s a now).appearance htimes
    have happearance'' : (t.advances s a (now :: times)).appearance =
        (t.advances s a (now :: times)).dispatched.foldl s.effect a :=
      calc
        _ = List.foldl s.effect (t.advance s a now).appearance _ := happearance'
        _ = List.foldl s.effect (List.foldl s.effect a _) _ := by rw [← happearance]
        _ = _ := List.foldl_append.symm
    have hcosts : costs s (t.advances s a (now :: times)).thread.stack ≤
        costs s t.stack - (now :: times).length := by
      apply Nat.le_trans hrest
      rw [List.length_cons]
      omega
    exact ⟨zs, (List.append_assoc ..).symm, hcalm'', happearance'', hactive'', hcosts⟩

/-- Instant blocks come to an end, at whatever times the ticks are. By then they have taken effect
one after another, each once and on what the one before it has left, in however many ticks. -/
theorem appearance_of_instant (hs : s.WellFormed) (hr : s.IsTrigger root)
    (hinstant : ∀ h, (s.unrolling root).Contains h → ∀ i, s.instruction? h = some i → i.Instant) :
    ∃ blocks, s.unrolling root = .finite blocks ∧
      (∃ n, ∀ a times, n ≤ times.length → (∀ now ∈ times, ¬ now < 0) →
        ((start root).advances s a times).thread.active = false) ∧
      ∀ a times, (∀ now ∈ times, ¬ now < 0) →
        ((start root).advances s a times).thread.active = false →
          ((start root).advances s a times).thread.stack = [] ∧
          ((start root).advances s a times).thread.action = none ∧
          ((start root).advances s a times).appearance = blocks.foldl s.effect a := by
  obtain ⟨blocks, hblocks⟩ := hs.endsWithout_unrolling root fun h hh hf => hinstant h hh _ hf
  rw [hblocks] at hinstant
  have hcalm : Calm s (start root) blocks :=
    { action := rfl
      wakeTime := rfl
      inRange := inRange_start root
      remaining_eq := (remaining_start hr).trans hblocks
      instant := hinstant }
  -- A tick that finds something left to do lowers the costs, so that as many ticks are enough.
  have hends : ∀ a times, costs s (start root).stack ≤ times.length → (∀ now ∈ times, ¬ now < 0) →
      ((start root).advances s a times).thread.active = false := by
    intro a times hlength htimes
    obtain ⟨_, _, _, _, hactive, hcosts⟩ := hcalm.advances hs rfl a times htimes
    rw [Nat.sub_eq_zero_of_le hlength] at hcosts
    rw [hactive, stack_nil_of_costs (Nat.le_zero.1 hcosts)]
    rfl
  refine ⟨blocks, hblocks, ⟨_, hends⟩, ?_⟩
  intro a times htimes hinactive
  obtain ⟨rest, hrest, hend, happearance, _, _⟩ := hcalm.advances hs rfl a times htimes
  have hstack := stack_nil_of_advances times (by simp [start]) hinactive
  have hnil := hend.remaining_eq
  rw [hstack, remaining] at hnil
  obtain rfl := Unrolling.finite.inj hnil
  rw [List.append_nil] at hrest
  exact ⟨hstack, hend.action, by rw [happearance, ← hrest]⟩

theorem appearance_of_instant_striding :
    ∃ n, ∀ a times, n ≤ times.length → (∀ now ∈ times, ¬ now < 0) →
      let angles := a.transform.rotation
      let turned : Vec3 := angles + ⟨0 * radians 90, 1 * radians 90, 0 * radians 90⟩
      let step (angles : Vec3) : Vec3 :=
        (Rotation.aroundX angles.x * Rotation.aroundY angles.y * Rotation.aroundZ angles.z).apply
          ⟨1 * 2, 0 * 2, 0 * 2⟩
      ((start ⟨0, 0⟩).advances Script.striding a times).appearance =
        { transform :=
            { position := a.transform.position + step angles + step turned
              rotation := turned + ⟨0 * radians 90, 1 * radians 90, 0 * radians 90⟩
              scale := ⟨1.5, 1.5, 1.5⟩ }
          color := a.color } := by
  have hunrolling : Script.striding.unrolling ⟨0, 0⟩ =
      .finite [⟨1, 0⟩, ⟨2, 0⟩, ⟨3, 0⟩, ⟨4, 0⟩, ⟨2, 0⟩, ⟨3, 0⟩, ⟨4, 0⟩] := rfl
  have htwice : Script.striding.instruction? ⟨1, 0⟩ = some (.loop 2) := rfl
  have hahead : Script.striding.instruction? ⟨2, 0⟩ = some (.move .x 2 0) := rfl
  have hturn : Script.striding.instruction? ⟨3, 0⟩ = some (.rotate .y 90 0) := rfl
  have hgrow : Script.striding.instruction? ⟨4, 0⟩ = some (.scale 1.5 0) := rfl
  have hblocks : ∀ h ∈ ([⟨1, 0⟩, ⟨2, 0⟩, ⟨3, 0⟩, ⟨4, 0⟩, ⟨2, 0⟩, ⟨3, 0⟩, ⟨4, 0⟩] : List Handle),
      ∀ i ∈ Script.striding.instruction? h, i.Instant := by
    decide +kernel
  have hinstant : ∀ h, (Script.striding.unrolling ⟨0, 0⟩).Contains h →
      ∀ i, Script.striding.instruction? h = some i → i.Instant := by
    rw [hunrolling]
    exact hblocks
  have hwellFormed : Script.striding.WellFormed := (Script.Sound.empty _ _).after _
  have htrigger : Script.striding.IsTrigger ⟨0, 0⟩ := by
    unfold Script.IsTrigger
    decide
  obtain ⟨blocks, hblocks, ⟨n, hn⟩, hend⟩ :=
    appearance_of_instant hwellFormed htrigger hinstant
  rw [hunrolling] at hblocks
  obtain rfl := Unrolling.finite.inj hblocks
  refine ⟨n, ?_⟩
  intro a times hlength htimes
  obtain ⟨_, _, happearance⟩ := hend a times htimes (hn a times hlength htimes)
  rw [happearance]
  simp only [List.foldl_cons, List.foldl_nil, Script.effect, htwice, hahead, hturn, hgrow]
  rfl

end Thread

end BlockScript
