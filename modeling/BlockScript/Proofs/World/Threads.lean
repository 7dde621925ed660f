import BlockScript.Proofs.Actor.Revision
import BlockScript.Proofs.World.Reach

namespace BlockScript

open Relation

namespace World

variable {w : World}

/-- What holds of all actors of a world. -/
def Kept (w : World) : Prop := ∀ actor ∈ w.actors, actor.Kept w.playing

theorem Kept.count (hw : w.Kept) (counter : Nat) : ({ w with counter } : World).Kept := hw

theorem Kept.editActor {α : Type} {edit : Actor → Logged (Actor × Option α)} (hw : w.Kept)
    (id : String) (hedit : ∀ actor, actor.Kept w.playing → (edit actor).value.1.Kept w.playing) :
    (w.editActor id edit).value.1.Kept := by
  rw [World.editActor]
  split
  · exact hw
  · split
    · exact hw
    · next place _ actor hactor =>
      intro other hother
      rcases List.mem_or_eq_of_mem_set hother with hother | rfl
      · exact hw other hother
      · exact hedit actor (hw actor (List.mem_of_getElem? hactor))

theorem kept_restart {actor : Actor} (hscripts : ∀ s ∈ actor.scripts, s.WellFormed)
    (hidle : w.playing = false → actor.threads = ∅) : (w.restart actor).value.Kept w.playing := by
  rw [restart]
  split
  · next hplaying =>
    rw [hplaying]
    exact Actor.kept_start hscripts
  · next hplaying =>
    exact Actor.kept_of_no_threads hscripts (hidle (Bool.eq_false_iff.2 hplaying))

theorem Kept.editScript {α : Type} {edit : Script → Logged (Script × Option α)} (hw : w.Kept)
    (id scriptId : String) (hedit : Script.Careful edit) :
    (w.editScript id scriptId edit).value.1.Kept := by
  apply hw.editActor id
  intro actor hactor
  have hrefused := actor.editScript_of_refused scriptId hedit hactor.wellFormed
  have hscripts := actor.wellFormed_editScript scriptId hedit hactor.wellFormed
  have hthreads := actor.threads_editScript scriptId edit
  rw [Logged.value_bind]
  -- An edit that is carried out starts all threads over, and one that is refused changes nothing.
  split
  · next edited result heq =>
    rw [heq] at hscripts hthreads
    exact kept_restart hscripts fun hidle => hthreads.trans (hactor.idle hidle)
  · next edited heq =>
    rw [heq] at hrefused
    obtain rfl : edited = actor := hrefused rfl
    exact hactor

theorem Kept.reviseScript {edit : Script → Logged (Script × Bool)} (hw : w.Kept)
    (id scriptId : String) (r : Revision) (hr : ∀ s, (edit s).value = s.revise r) :
    (w.reviseScript id scriptId edit).value.1.Kept :=
  hw.editScript id scriptId (madeBy_of_value hr).careful

theorem setPlaying_eq {playing : Bool} (h : w.playing ≠ playing) :
    (w.setPlaying playing).value = { w with
      playing
      actors := w.actors.map fun actor => if playing then actor.start.value else actor.stop } := by
  rw [World.setPlaying, if_neg h, Logged.value_bind, Logged.value_mapM]
  cases playing <;> rfl

theorem actors_tick (w : World) (now delta : Float) :
    (w.tick now delta).value.actors =
      w.actors.map fun actor => (actor.tick now delta w.playing).value :=
  Logged.value_mapM _ _

theorem addObject_eq (w : World) (shape : Shape) :
    let number := w.freeNumber w.actors.length (w.counter + 1)
    let actor := newActor shape w.user number
    (w.addObject shape).value =
      ({ w with counter := number }.append (w.restart actor).value, actor.id) := by
  intro number actor
  rw [World.addObject, restart]
  dsimp only
  split <;> rfl

theorem Kept.setPlaying (hw : w.Kept) (playing : Bool) : (w.setPlaying playing).value.Kept := by
  by_cases h : w.playing = playing
  · rw [World.setPlaying, if_pos h]
    exact hw
  · rw [setPlaying_eq h]
    intro actor hactor
    obtain ⟨before, hbefore, rfl⟩ := List.mem_map.1 hactor
    have hscripts := (hw before hbefore).wellFormed
    cases playing with
    | true => exact Actor.kept_start hscripts
    | false => exact Actor.kept_stop hscripts

theorem Kept.tick (hw : w.Kept) (now delta : Float) : (w.tick now delta).value.Kept := by
  intro actor hactor
  rw [actors_tick] at hactor
  obtain ⟨before, hbefore, rfl⟩ := List.mem_map.1 hactor
  exact (hw before hbefore).tick now delta

theorem Kept.click (hw : w.Kept) (id : String) : (w.click id).value.1.Kept := by
  rw [World.click]
  split
  · next hplaying =>
    apply hw.editActor id
    intro actor hactor
    rw [hplaying] at hactor ⊢
    exact hactor.click
  · exact hw

theorem Kept.append {actor : Actor} (hw : w.Kept) (hactor : actor.Kept w.playing) :
    (w.append actor).Kept := by
  intro other hother
  rcases List.mem_append.1 hother with hother | hother
  · exact hw other hother
  · obtain rfl := List.mem_singleton.1 hother
    exact hactor

theorem Kept.addObject (hw : w.Kept) (shape : Shape) : (w.addObject shape).value.1.Kept := by
  rw [addObject_eq]
  apply (hw.count _).append
  exact kept_restart (fun _ hs => absurd hs List.not_mem_nil) fun _ => rfl

theorem Kept.updateObject (hw : w.Kept) (id : String) (update : ObjectUpdate) :
    (w.updateObject id update).value.1.Kept :=
  hw.editActor id fun _ hactor => hactor.of_same rfl rfl

theorem Kept.removeObject (hw : w.Kept) (id : String) : (w.removeObject id).1.Kept := by
  rw [World.removeObject]
  split
  · exact hw
  · exact fun actor hactor => hw actor (List.mem_of_mem_eraseIdx hactor)

theorem Kept.addScript (hw : w.Kept) (id : String) : (w.addScript id).value.1.Kept := by
  rw [World.addScript]
  split
  · apply (hw.count _).editActor id
    intro actor hactor
    have hscripts : ∀ s ∈ actor.scripts ++ [newScript (w.counter + 1)], s.WellFormed := by
      intro s hs
      rcases List.mem_append.1 hs with hs | hs
      · exact hactor.wellFormed s hs
      · obtain rfl := List.mem_singleton.1 hs
        exact wellFormed_newScript _
    exact kept_restart hscripts hactor.idle
  · exact hw

/-- Every operation keeps threads in their trees, if only by starting them over. -/
theorem Kept.perform (hw : w.Kept) (operation : Operation) : (w.perform operation).Kept := by
  cases operation with
  | setPlaying playing => exact hw.setPlaying playing
  | tick now delta => exact hw.tick now delta
  | click id => exact hw.click id
  | addObject shape => exact hw.addObject shape
  | updateObject id update => exact hw.updateObject id update
  | removeObject id => exact hw.removeObject id
  | addScript id => exact hw.addScript id
  | addBlock id scriptId opcode parentKey =>
    exact (hw.count _).editScript id scriptId (madeBy_addBlock _ opcode parentKey).careful
  | updateBlock id scriptId key ps =>
    exact hw.reviseScript id scriptId (.updateBlock key ps) fun _ => rfl
  | removeBlock id scriptId key =>
    exact hw.reviseScript id scriptId (.removeBlock key) fun _ => rfl
  | reorderBlock id scriptId source target =>
    exact hw.reviseScript id scriptId (.reorderBlock source target) fun _ => rfl

theorem kept_fresh : fresh.Kept := by
  intro actor hactor
  obtain rfl := List.mem_singleton.1 hactor
  exact Actor.kept_of_no_threads (fun _ hs => absurd hs List.not_mem_nil) rfl

theorem Kept.appendNew {actor : Actor} (hw : w.Kept) (hactor : actor.Kept w.playing) :
    (w.appendNew actor).value.Kept ∧ (w.appendNew actor).value.playing = w.playing := by
  rw [World.appendNew]
  split
  · exact ⟨hw, rfl⟩
  · exact ⟨hw.append hactor, rfl⟩

theorem kept_ofActors {actors : List Actor} (hactors : ∀ actor ∈ actors, actor.Kept false)
    (environment : Color) : (ofActors actors environment).value.Kept := by
  rw [ofActors, Logged.value_foldlM]
  suffices hfold : ∀ w : World, w.Kept → w.playing = false →
      (actors.foldl (fun w actor => (w.appendNew actor).value) w).Kept from
    hfold _ (fun _ hactor => absurd hactor List.not_mem_nil) rfl
  induction actors with
  | nil => exact fun w hw _ => hw
  | cons actor actors ih =>
    intro w hw hplaying
    obtain ⟨hactor, hactors⟩ := List.forall_mem_cons.1 hactors
    obtain ⟨hkept, hsame⟩ := hw.appendNew (hplaying ▸ hactor)
    exact ih hactors _ hkept (hsame.trans hplaying)

theorem kept_actorOfAuthored (object : Authored.Object) :
    (Actor.ofAuthored object).value.Kept false := by
  have hscripts : ∀ s ∈ (Actor.ofAuthored object).value.scripts, s.WellFormed := by
    intro s hs
    change s ∈ (object.scripts.mapM Script.ofAuthored).value at hs
    rw [Logged.value_mapM] at hs
    obtain ⟨authored, _, rfl⟩ := List.mem_map.1 hs
    exact Script.wellFormed_ofAuthored authored
  exact Actor.kept_of_no_threads hscripts rfl

theorem kept_ofAuthored (authored : Authored.World) : (ofAuthored authored).value.Kept := by
  rw [World.ofAuthored, Logged.value_bind, Logged.value_mapM]
  apply kept_ofActors
  intro actor hactor
  obtain ⟨object, _, rfl⟩ := List.mem_map.1 hactor
  exact kept_actorOfAuthored object

theorem Reachable.kept (hw : w.Reachable) : w.Kept := by
  induction hw with
  | fresh => exact kept_fresh
  | @parse text loaded hparse =>
    rw [World.parse] at hparse
    cases hread : Authored.World.read text with
    | error fault => rw [hread] at hparse; contradiction
    | ok authored =>
      rw [hread] at hparse
      obtain rfl := Except.ok.inj hparse
      exact kept_ofAuthored authored
  | perform _ operation ih => exact ih.perform operation

/-- While a world is edited there are no threads. While it plays, each thread of an actor belongs to
a script of that actor, its outermost container is the first root of that script for one of the
triggers, all its containers are still there, and it will dispatch nothing that is not below the
root. -/
theorem threads_in_trees (hw : w.Reachable) :
    (w.playing = false → ∀ actor ∈ w.actors, actor.threads = ∅) ∧
      (w.playing = true → ∀ actor ∈ w.actors, (actor.scripts.map (·.id)).Nodup →
        ∀ id t, actor.threads[id]? = some t → ∃ s, actor.script? id = some s ∧
          ∃ root, (s.firstRoot? .onStart = some root ∨ s.firstRoot? .onClick = some root) ∧
            (∀ frame, t.stack.getLast? = some frame → frame.block = root) ∧
            (∀ frame ∈ t.stack, ∃ block, s.block? frame.block = some block) ∧
            ∀ a now, ∀ h ∈ (t.advance s a now).dispatched, TransGen s.HasParent h root) := by
  constructor
  · intro hplaying actor hactor
    exact (hw.kept actor hactor).idle hplaying
  · intro _ actor hactor hids id t ht
    have hkept := hw.kept actor hactor
    obtain ⟨s, hs, root, ⟨trigger, hroot⟩, hin⟩ := hkept.hosts hids id t ht
    have hwellFormed := hkept.wellFormed s (Actor.mem_scripts_of_script? hs)
    have hfirst : s.firstRoot? .onStart = some root ∨ s.firstRoot? .onClick = some root := by
      cases trigger with
      | start => exact .inl hroot
      | click => exact .inr hroot
    have houtermost : ∀ frame, t.stack.getLast? = some frame → frame.block = root := by
      intro frame hframe
      apply hin.outermost
      rw [List.getLast?_map, hframe]
      rfl
    have hstored : ∀ frame ∈ t.stack, ∃ block, s.block? frame.block = some block := by
      intro frame hframe
      exact hin.stored _ (List.mem_map_of_mem hframe)
    exact ⟨s, hs, root, hfirst, houtermost, hstored, fun a now => (hin.advance hwellFormed a now).2⟩

theorem threads_in_trees_turning :
    turning.Reachable ∧ ∃ actor ∈ turning.actors, ∃ t s root,
      actor.threads["script-2"]? = some t ∧ t.stack.length = 2 ∧
        actor.script? "script-2" = some s ∧
        (s.firstRoot? .onStart = some root ∨ s.firstRoot? .onClick = some root) ∧
        ∀ frame, t.stack.getLast? = some frame → frame.block = root := by
  have hw : turning.Reachable := Reachable.fresh.after _
  have hstate : (turning.actors[1]?.bind fun actor => actor.threads["script-2"]?.map fun t =>
      (decide (actor.scripts.map (·.id)).Nodup, t.stack.length)) = some (true, 2) := by
    decide +kernel
  obtain ⟨actor, hactor, hthread⟩ := Option.bind_eq_some_iff.1 hstate
  obtain ⟨t, ht, heq⟩ := Option.map_eq_some_iff.1 hthread
  obtain ⟨hids, hlength⟩ := Prod.mk.inj heq
  have hmem := List.mem_of_getElem? hactor
  obtain ⟨s, hs, root, hroot, houtermost, _⟩ :=
    (threads_in_trees hw).2 (by decide +kernel) actor hmem (of_decide_eq_true hids) _ t ht
  exact ⟨hw, actor, hmem, t, s, root, ht, hlength, hs, hroot, houtermost⟩

end World

end BlockScript
