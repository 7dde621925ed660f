import BlockScript.Proofs.Thread.Path

namespace BlockScript

open Relation

def Script.glowing : Script :=
  (empty "script-1" "Glowing").after [.insert "start" .onStart none,
    .insert "always" .forever (some ⟨0, 0⟩), .insert "red" (.paint ⟨255, 0, 0⟩) (some ⟨1, 0⟩),
    .insert "twice" (.loop 2) (some ⟨1, 0⟩), .insert "white" (.paint .white) (some ⟨3, 0⟩),
    .insert "black" (.paint ⟨0, 0, 0⟩) (some ⟨0, 0⟩)]

theorem Script.glowing_wellFormed : Script.glowing.WellFormed :=
  (Sound.empty _ _).after _

/-- A thread with more containers around its own ones. -/
def Thread.on (t : Thread) (outer : List Frame) : Thread := { t with stack := t.stack ++ outer }

def Advance.on (result : Advance) (outer : List Frame) : Advance :=
  { result with thread := result.thread.on outer }

namespace Thread

variable {s : Script} {now : Float} {t t' : Thread} {a a' : Appearance} {ds : List Handle}
  {frame next loop : Frame} {inner outer rest stack : List Frame} {h c : Handle}
  {ticks : List (Float × Appearance)}

/-- A stack with a block as its outermost container. -/
inductive Within (h : Handle) : List Frame → Prop
  | outermost {frame : Frame} (hblock : frame.block = h) : Within h [frame]
  | inner {frame : Frame} {rest : List Frame} (hrest : Within h rest) : Within h (frame :: rest)

theorem Within.ne_nil (hwithin : Within h stack) : stack ≠ [] := by
  cases hwithin <;> exact List.cons_ne_nil _ _

theorem Within.replace (hwithin : Within h (frame :: rest)) (hblock : next.block = frame.block) :
    Within h (next :: rest) := by
  cases hwithin with
  | outermost houter => exact .outermost (hblock.trans houter)
  | inner hrest => exact .inner hrest

theorem Within.append (hwithin : Within h stack) (inner : List Frame) :
    Within h (inner ++ stack) := by
  induction inner with
  | nil => exact hwithin
  | cons first inner ih => exact .inner ih

theorem Within.eq_append (hwithin : Within h stack) :
    ∃ inner loop, stack = inner ++ [loop] ∧ loop.block = h := by
  induction hwithin with
  | @outermost frame hblock => exact ⟨[], frame, rfl, hblock⟩
  | @inner first rest _ ih =>
    obtain ⟨inner, loop, rfl, hblock⟩ := ih
    exact ⟨first :: inner, loop, rfl, hblock⟩

theorem nextRound?_of_isForever (hforever : s.IsForever frame.block) :
    nextRound? s frame = some ⟨frame.block, 0, none⟩ := by
  rw [nextRound?, show s.instruction? frame.block = some .forever from hforever]

theorem Within.leave (hwithin : Within h (frame :: rest)) (hforever : s.IsForever h)
    (hnext : nextRound? s frame = none) : Within h rest := by
  cases hwithin with
  | outermost hblock =>
    subst hblock
    rw [nextRound?_of_isForever hforever] at hnext
    contradiction
  | inner hrest => exact hrest

theorem dispatch_within (hwithin : Within h t.stack) (c : Handle) (i : Instruction)
    (a : Appearance) (now : Float) : Within h (t.dispatch c i a now).1.stack := by
  rw [dispatch_stack]
  exact hwithin.append _

theorem Step.within (hforever : s.IsForever h) (hstep : Step s now t a ds t' a')
    (hwithin : Within h t.stack) : Within h t'.stack := by
  cases hstep with
  | leave hstack hend hnext =>
    rw [hstack] at hwithin
    exact hwithin.leave hforever hnext
  | again hstack hend hnext =>
    rw [hstack] at hwithin
    exact hwithin.replace (nextRound?_block hnext)
  | skip hstack hchild hnone =>
    rw [hstack] at hwithin
    exact hwithin.replace rfl
  | @turn _ _ _ frame rest child i _ hstack hchild hi hturn =>
    rw [hstack] at hwithin
    have hmoved : Within h
        ({ t with stack := { frame with next := frame.next + 1 } :: rest } : Thread).stack :=
      hwithin.replace rfl
    have hin := dispatch_within hmoved child i a now
    rw [hturn] at hin
    exact hin

theorem Steps.within (hforever : s.IsForever h) (hsteps : Steps s now t a ds t' a')
    (hwithin : Within h t.stack) : Within h t'.stack := by
  induction hsteps with
  | refl => exact hwithin
  | head first _ ih => exact ih (first.within hforever hwithin)

theorem Within.advance (hforever : s.IsForever h) (hwithin : Within h t.stack) (a : Appearance)
    (now : Float) : Within h (t.advance s a now).thread.stack := by
  obtain ⟨t₀, a₀, t₁, hsteps, hstart, hend⟩ := advance_steps s t a now
  rw [← hend]
  rw [← hstart] at hwithin
  exact hsteps.within hforever hwithin

theorem dispatch_on (t : Thread) (outer : List Frame) (h : Handle) (i : Instruction)
    (a : Appearance) (now : Float) :
    (t.on outer).dispatch h i a now =
      ((t.dispatch h i a now).1.on outer, (t.dispatch h i a now).2) := by
  cases i <;> simp only [dispatch, tween?] <;> first | rfl | (split <;> rfl)

theorem run_on (hforever : s.IsForever h) (hwithin : Within h t.stack) (n : Nat) (a : Appearance)
    (outer : List Frame) : run s now n (t.on outer) a = (run s now n t a).on outer := by
  -- As long as the loop is on the stack, the innermost container is one of the thread's own.
  induction n generalizing t a with
  | zero => rfl
  | succ n ih =>
    obtain ⟨frame, rest, hstack⟩ := List.exists_cons_of_ne_nil hwithin.ne_nil
    have hon : (t.on outer).stack = frame :: (rest ++ outer) := congrArg (· ++ outer) hstack
    rw [hstack] at hwithin
    rw [run, run, hon, hstack]
    dsimp only
    split
    · next hend =>
      split
      · rfl
      · next hnext =>
        have hrest := ih (t := { t with stack := rest }) (hwithin.leave hforever hnext) a
        exact congrArg (fun result : Advance => { result with steps := result.steps + 1 }) hrest
    next child hchild =>
    let moved : Thread := { t with stack := { frame with next := frame.next + 1 } :: rest }
    have hmoved : Within h moved.stack := hwithin.replace rfl
    split
    · exact congrArg (fun result : Advance => { result with steps := result.steps + 1 })
        (ih hmoved a)
    next i hi =>
    have hturn := dispatch_on moved outer child i a now
    have hin := dispatch_within hmoved child i a now
    have hsame : moved.on outer =
      { t.on outer with stack := { frame with next := frame.next + 1 } :: (rest ++ outer) } := rfl
    rw [← hsame, hturn]
    rcases hdispatch : moved.dispatch child i a now with ⟨t', a', suspended⟩
    rw [hdispatch] at hin
    cases suspended with
    | true => rfl
    | false =>
      exact congrArg (fun result : Advance => { result with
        steps := result.steps + 1, dispatched := child :: result.dispatched }) (ih hin a')

theorem settle_on (result : Advance) (outer : List Frame)
    (hwithin : Within h result.thread.stack) :
    settle (result.on outer) = (settle result).on outer := by
  have hempty : result.thread.stack.isEmpty = false := List.isEmpty_eq_false_iff.2 hwithin.ne_nil
  have hon : (result.on outer).thread.stack.isEmpty = false :=
    List.isEmpty_eq_false_iff.2 (List.append_ne_nil_of_left_ne_nil hwithin.ne_nil outer)
  rw [settle, settle, hempty, hon]
  rfl

theorem run_within (hforever : s.IsForever h) (hwithin : Within h t.stack) (n : Nat)
    (a : Appearance) : Within h (run s now n t a).thread.stack :=
  (run_steps n t a).within hforever hwithin

theorem wake_on (hforever : s.IsForever h) (hwithin : Within h t.stack) (a : Appearance)
    (now : Float) (outer : List Frame) :
    wake s (t.on outer) a now = (wake s t a now).on outer := by
  by_cases hwaiting : now < t.wakeTime
  · have hon : now < (t.on outer).wakeTime := hwaiting
    rw [wake, wake, if_pos hwaiting, if_pos hon]
    rfl
  · have hon : ¬ now < (t.on outer).wakeTime := hwaiting
    rw [wake, wake, if_neg hwaiting, if_neg hon, run_on hforever hwithin]
    exact settle_on _ _ (run_within hforever hwithin budget a)

/-- A tick of a thread in a loop without an end does not depend on what is around the loop. -/
theorem advance_on (hforever : s.IsForever h) (hwithin : Within h t.stack) (a : Appearance)
    (now : Float) (outer : List Frame) :
    (t.on outer).advance s a now = (t.advance s a now).on outer := by
  have hactive : (t.on outer).active = t.active := rfl
  have haction : (t.on outer).action = t.action := rfl
  rw [Thread.advance, Thread.advance, hactive, haction]
  split
  · split
    · exact wake_on hforever hwithin a now outer
    · split
      · rfl
      · next a' _ => exact wake_on (t := { t with action := none }) hforever hwithin a' now outer
  · rfl

theorem after_on (hforever : s.IsForever h) (hwithin : Within h t.stack)
    (ticks : List (Float × Appearance)) (outer : List Frame) :
    (t.on outer).after s ticks = (t.after s ticks).on outer ∧ Within h (t.after s ticks).stack ∧
      (t.on outer).dispatchedIn s ticks = t.dispatchedIn s ticks := by
  induction ticks generalizing t with
  | nil => exact ⟨rfl, hwithin, rfl⟩
  | cons tick ticks ih =>
    have hfirst : (t.on outer).advance s tick.2 tick.1 = (t.advance s tick.2 tick.1).on outer :=
      advance_on hforever hwithin tick.2 tick.1 outer
    obtain ⟨hafter, hin, hdispatched⟩ := ih (hwithin.advance hforever tick.2 tick.1)
    have hthread : ((t.on outer).advance s tick.2 tick.1).thread =
        (t.advance s tick.2 tick.1).thread.on outer := congrArg Advance.thread hfirst
    refine ⟨?_, hin, ?_⟩
    · rw [← hthread] at hafter
      exact hafter
    · rw [dispatchedIn, dispatchedIn, hthread, hdispatched, hfirst]
      rfl

section Inherited

variable {P : Handle → Prop} (hP : ∀ p c, P p → c ∈ s.children p → P c)

include hP

/-- What a block has from the one around it, all containers of a thread have that had it from the
beginning. -/
theorem Step.inherited (hstep : Step s now t a ds t' a') (ht : ∀ frame ∈ t.stack, P frame.block) :
    (∀ frame ∈ t'.stack, P frame.block) ∧ ∀ h ∈ ds, ∃ p, P p ∧ h ∈ s.children p := by
  cases hstep with
  | leave hstack hend hnext =>
    rw [hstack, List.forall_mem_cons] at ht
    exact ⟨ht.2, nofun⟩
  | again hstack hend hnext =>
    rw [hstack, List.forall_mem_cons, ← nextRound?_block hnext] at ht
    exact ⟨List.forall_mem_cons.2 ht, nofun⟩
  | skip hstack hchild hnone =>
    rw [hstack, List.forall_mem_cons] at ht
    exact ⟨List.forall_mem_cons.2 ht, nofun⟩
  | @turn _ _ _ frame rest child i _ hstack hchild hi hturn =>
    rw [hstack, List.forall_mem_cons] at ht
    have hmoved : ∀ frame' ∈ { frame with next := frame.next + 1 } :: rest, P frame'.block :=
      List.forall_mem_cons.2 ht
    have hmem := List.mem_of_getElem? hchild
    have hstack' := congrArg (fun result => result.1.stack) hturn
    rw [dispatch_stack] at hstack'
    constructor
    · rw [← hstack']
      intro frame' hframe'
      rcases List.mem_append.1 hframe' with hentered | hkept
      · rw [entered?_block (Option.mem_toList.1 hentered)]
        exact hP _ _ ht.1 hmem
      · exact hmoved frame' hkept
    · intro h hh
      obtain rfl := List.mem_singleton.1 hh
      exact ⟨frame.block, ht.1, hmem⟩

theorem Steps.inherited (hsteps : Steps s now t a ds t' a')
    (ht : ∀ frame ∈ t.stack, P frame.block) :
    (∀ frame ∈ t'.stack, P frame.block) ∧ ∀ h ∈ ds, ∃ p, P p ∧ h ∈ s.children p := by
  induction hsteps with
  | refl => exact ⟨ht, nofun⟩
  | head first _ ih =>
    obtain ⟨ht', hfirst⟩ := first.inherited hP ht
    obtain ⟨ht'', hrest⟩ := ih ht'
    exact ⟨ht'', fun h hh => (List.mem_append.1 hh).elim (hfirst h) (hrest h)⟩

theorem inherited_dispatchedIn (ht : ∀ frame ∈ t.stack, P frame.block)
    (ticks : List (Float × Appearance)) :
    ∀ h ∈ t.dispatchedIn s ticks, ∃ p, P p ∧ h ∈ s.children p := by
  induction ticks generalizing t with
  | nil => exact nofun
  | cons tick ticks ih =>
    obtain ⟨t₀, a₀, t₁, hsteps, hstart, hend⟩ := advance_steps s t tick.2 tick.1
    rw [← hstart] at ht
    obtain ⟨ht₁, hfirst⟩ := hsteps.inherited hP ht
    rw [hend] at ht₁
    intro h hh
    exact (List.mem_append.1 hh).elim (hfirst h) (ih ht₁ h)

end Inherited

theorem not_dispatchedIn_of_not_above (hs : s.WellFormed) {container : Handle}
    (ht : ∀ frame ∈ t.stack, ¬ ReflTransGen s.HasParent container frame.block)
    (ticks : List (Float × Appearance)) :
    ∀ h ∈ s.children container, h ∉ t.dispatchedIn s ticks := by
  intro h hh hdispatched
  have hP : ∀ p c, ¬ ReflTransGen s.HasParent container p → c ∈ s.children p →
      ¬ ReflTransGen s.HasParent container c :=
    fun p c hp hc hbelow => hp (hbelow.tail (hs.parentOf?_of_mem_children hc))
  obtain ⟨p, hp, hchild⟩ := inherited_dispatchedIn hP ht ticks h hdispatched
  have hparent : s.HasParent h container := hs.parentOf?_of_mem_children hh
  obtain rfl := hparent.unique (hs.parentOf?_of_mem_children hchild)
  exact hp .refl

theorem eq_on_of_stack (hstack : t.stack = inner ++ loop :: outer) :
    t = ({ t with stack := inner ++ [loop] } : Thread).on outer := by
  rw [on, List.append_assoc, List.singleton_append, ← hstack]

theorem dispatchedIn_of_forever (hforever : s.IsForever loop.block)
    (hstack : t.stack = inner ++ loop :: outer) (ticks : List (Float × Appearance)) :
    t.dispatchedIn s ticks =
      ({ t with stack := inner ++ [loop] } : Thread).dispatchedIn s ticks := by
  have hon := (after_on hforever (t := { t with stack := inner ++ [loop] })
    (Within.append (.outermost rfl) inner) ticks outer).2.2
  rwa [← eq_on_of_stack hstack] at hon

theorem not_above_self_of_isForever (hs : s.WellFormed) (hforever : s.IsForever h) :
    ¬ TransGen s.HasParent h h := by
  obtain ⟨block, hb, _⟩ := Option.map_eq_some_iff.1 hforever
  exact (hs.rooted_of_stored hb).not_above_self

/-- The children of a container around a loop without an end have no turn while the thread is in the
loop, unless the container is run once more inside the loop. -/
theorem not_dispatchedIn_around_forever (hs : s.WellFormed) (hforever : s.IsForever loop.block)
    (hstack : t.stack = inner ++ loop :: outer) {container : Handle}
    (habove : TransGen s.HasParent loop.block container)
    (hinner : ∀ frame ∈ inner, ¬ ReflTransGen s.HasParent container frame.block)
    (ticks : List (Float × Appearance)) :
    ∀ h ∈ s.children container, h ∉ t.dispatchedIn s ticks := by
  rw [dispatchedIn_of_forever hforever hstack]
  apply not_dispatchedIn_of_not_above hs
  intro frame hframe
  rcases List.mem_append.1 hframe with hframe | hframe
  · exact hinner frame hframe
  · obtain rfl := List.mem_singleton.1 hframe
    exact fun hbelow => not_above_self_of_isForever hs hforever (habove.trans_left hbelow)

/-- A thread that has got into a loop without an end from the root at which it was started never
dispatches a child of a container around the loop again. -/
theorem not_dispatchedIn_of_start (hs : s.WellFormed) {root : Handle}
    (hr : s.instruction? root = some .onStart ∨ s.instruction? root = some .onClick)
    (before : List (Float × Appearance)) (hforever : s.IsForever loop.block)
    (hstack : ((start root).after s before).stack = inner ++ loop :: outer)
    (ticks : List (Float × Appearance)) :
    ∀ frame ∈ outer, ∀ h ∈ s.children frame.block,
      h ∉ ((start root).after s before).dispatchedIn s ticks := by
  have hpath := path_after (s := s) hr before
  have hpairwise := hpath.pairwise hs
  rw [hstack] at hpairwise
  obtain ⟨_, houter, hinner⟩ := List.pairwise_append.1 hpairwise
  intro frame hframe
  have habove : TransGen s.HasParent loop.block frame.block :=
    (List.pairwise_cons.1 houter).1 frame hframe
  apply not_dispatchedIn_around_forever hs hforever hstack habove
  intro inside hinside hbelow
  have hloop := hinner inside hinside loop (List.mem_cons_self ..)
  exact not_above_self_of_isForever hs hforever ((habove.trans_left hbelow).trans hloop)

/-- However many ticks there are, and whatever the object is like in them, a thread in a loop
without an end stays active and in the loop, and the frames around the loop stay as they are. It
goes on as it would if the loop were its outermost container. So what follows the loop in a
container around it never has its turn there, and none of the children of such a container has one
at all unless that container is also run inside the loop. -/
theorem forever_after (hforever : s.IsForever loop.block) (hactive : t.active = true)
    (hstack : t.stack = inner ++ loop :: outer) (ticks : List (Float × Appearance)) :
    let alone : Thread := { t with stack := inner ++ [loop] }
    (t.after s ticks).active = true ∧
      (∃ inner' loop', (t.after s ticks).stack = inner' ++ loop' :: outer ∧
        loop'.block = loop.block) ∧
      t.after s ticks = (alone.after s ticks).on outer ∧
      t.dispatchedIn s ticks = alone.dispatchedIn s ticks ∧
      (s.WellFormed → ∀ container, TransGen s.HasParent loop.block container →
        (∀ frame ∈ inner, ¬ ReflTransGen s.HasParent container frame.block) →
          ∀ h ∈ s.children container, h ∉ t.dispatchedIn s ticks) := by
  intro alone
  obtain ⟨hafter, hwithin, _⟩ := after_on hforever (t := alone)
    (Within.append (.outermost rfl) inner) ticks outer
  rw [← eq_on_of_stack hstack] at hafter
  obtain ⟨inner', loop', hstack', hblock⟩ := hwithin.eq_append
  have hstays : (t.after s ticks).stack = inner' ++ loop' :: outer := by
    rw [hafter, on, hstack', List.append_assoc, List.singleton_append]
  have hbegun : t.active = !t.stack.isEmpty := by
    rw [hactive, hstack]
    simp
  have hgoes : (t.after s ticks).active = !(t.after s ticks).stack.isEmpty :=
    after_of_advance (P := fun t => t.active = !t.stack.isEmpty) hbegun
      fun _ a now h => active_advance h a now
  have halone := dispatchedIn_of_forever hforever hstack ticks
  refine ⟨?_, ⟨inner', loop', hstays, hblock⟩, hafter, halone, ?_⟩
  · rw [hgoes, hstays]
    simp
  · exact fun hs container habove hinner =>
      not_dispatchedIn_around_forever hs hforever hstack habove hinner ticks

theorem forever_after_glowing :
    let t : Thread := ⟨[⟨⟨3, 0⟩, 0, some 1⟩, ⟨⟨1, 0⟩, 2, none⟩, ⟨⟨0, 0⟩, 1, none⟩], 0, none, true⟩
    let ticks := [(0, .default), (0, .default), (1, .default)]
    t.dispatchedIn .glowing ticks = [⟨4, 0⟩, ⟨2, 0⟩, ⟨3, 0⟩, ⟨4, 0⟩, ⟨4, 0⟩] ∧
      (t.after .glowing ticks).active = true ∧
      (∃ inner loop, (t.after .glowing ticks).stack = inner ++ loop :: [⟨⟨0, 0⟩, 1, none⟩] ∧
        loop.block = ⟨1, 0⟩) ∧
      ∀ h ∈ Script.glowing.children ⟨0, 0⟩, h ∉ t.dispatchedIn .glowing ticks := by
  intro t ticks
  let loop : Frame := ⟨⟨1, 0⟩, 2, none⟩
  have hforever : Script.glowing.IsForever loop.block := by unfold Script.IsForever; decide
  have hstack : t.stack = [⟨⟨3, 0⟩, 0, some 1⟩] ++ loop :: [⟨⟨0, 0⟩, 1, none⟩] := rfl
  obtain ⟨hactive, hstays, _, _, hnever⟩ := forever_after hforever rfl hstack ticks
  have hparent : Script.glowing.HasParent ⟨1, 0⟩ ⟨0, 0⟩ := rfl
  have hroot : Script.glowing.parentOf? ⟨0, 0⟩ = some none := rfl
  refine ⟨by decide +kernel, hactive, hstays, ?_⟩
  apply hnever Script.glowing_wellFormed ⟨0, 0⟩ (.single hparent)
  intro frame hframe hbelow
  obtain rfl := List.mem_singleton.1 hframe
  rcases reflTransGen_iff_eq_or_transGen.1 hbelow with heq | habove
  · contradiction
  · exact Script.not_above_of_root hroot habove

end Thread

end BlockScript
