import BlockScript.Proofs.Actor.Control
import BlockScript.Proofs.World.Assembled

namespace BlockScript.World

variable {w : World} {id : String}

/-- The worlds that come of a fresh one, of any objects with well-formed scripts or of a loaded one
by operations, and by what a host may set in them at any time. -/
inductive Hosted : World → Prop
  | fresh : Hosted fresh
  | ofActors {actors : List Actor}
      (hactors : ∀ actor ∈ actors, ∀ s ∈ actor.scripts, s.WellFormed) (environment : Color) :
      Hosted (ofActors actors environment).value
  | parse {text : String} {loaded : Logged World} (hparse : parse text = .ok loaded) :
      Hosted loaded.value
  | adjust {w : World} (hw : Hosted w) (environment : Color) (user : String) :
      Hosted { w with environment, user }
  | perform {w : World} (hw : Hosted w) (operation : Operation) :
      Hosted (w.perform operation)

theorem Hosted.after (hw : w.Hosted) (operations : List Operation) :
    (w.after operations).Hosted := by
  induction operations generalizing w with
  | nil => exact hw
  | cons operation operations ih => exact ih (hw.perform operation)

theorem Hosted.assembled (hw : w.Hosted) : w.Assembled := by
  induction hw with
  | fresh => exact .fresh
  | ofActors _ environment => exact .ofActors _ environment
  | parse hparse => exact .parse hparse
  | adjust _ environment user ih => exact ih.adjust environment user
  | perform _ operation ih => exact ih.perform operation

theorem mem_of_mem_firstOfEach {actors : List Actor} {actor : Actor}
    (h : actor ∈ firstOfEach actors) : actor ∈ actors := by
  induction actors with
  | nil => exact h
  | cons first rest ih =>
    rcases List.mem_cons.1 h with rfl | h
    · exact List.mem_cons_self ..
    · exact List.mem_cons_of_mem first (ih (List.mem_filter.1 h).1)

/-- What holds of all scripts of all objects in a world. -/
def WellScripted (w : World) : Prop := ∀ actor ∈ w.actors, ∀ s ∈ actor.scripts, s.WellFormed

theorem WellScripted.perform (hscripts : w.WellScripted) (hw : w.Indexed) (operation : Operation) :
    (w.perform operation).WellScripted := by
  by_cases hadded : ∃ shape, operation = .addObject shape
  · obtain ⟨shape, rfl⟩ := hadded
    rw [World.perform, addObject_eq, restart_eq]
    refine List.forall_mem_append.2 ⟨hscripts, List.forall_mem_singleton.2 ?_⟩
    rw [Actor.scripts_startIf]
    exact fun s hs => absurd hs List.not_mem_nil
  · cases hremoved : operation.removed? with
    | none =>
      rw [WellScripted, (hw.perform_of_kept (not_exists.1 hadded) hremoved).1]
      intro actor hactor
      obtain ⟨before, hbefore, rfl⟩ := List.mem_map.1 hactor
      exact Actor.wellFormed_handleAll (hscripts before hbefore) _
    | some removed =>
      obtain rfl := Operation.eq_of_removed? hremoved
      rw [WellScripted, World.perform, hw.actors_removeObject]
      exact fun actor hactor => hscripts actor (List.mem_filter.1 hactor).1

theorem Hosted.wellScripted (hw : w.Hosted) : w.WellScripted := by
  induction hw with
  | fresh => exact fun actor hactor => (Reachable.fresh.kept actor hactor).wellFormed
  | ofActors hactors environment =>
    rw [WellScripted, actors_ofActors]
    exact fun actor hactor => hactors actor (mem_of_mem_firstOfEach hactor)
  | parse hparse =>
    exact fun actor hactor => ((Reachable.parse hparse).kept actor hactor).wellFormed
  | adjust _ _ _ ih => exact ih
  | perform hw operation ih => exact ih.perform hw.assembled.indexed operation

theorem editActor_of_refused {α : Type} {edit : Actor → Logged (Actor × Option α)}
    (hedit : ∀ actor ∈ w.actors, (edit actor).value.2 = none → (edit actor).value.1 = actor)
    (hn : (w.editActor id edit).value.2 = none) : (w.editActor id edit).value.1 = w := by
  rw [editActor] at hn ⊢
  split
  · rfl
  · next place hplace =>
    rw [hplace] at hn
    dsimp only at hn
    split
    · rfl
    · next actor hactor =>
      rw [hactor] at hn
      have hsame := hedit actor (List.mem_of_getElem? hactor) hn
      change { w with actors := w.actors.set place (edit actor).value.1 } = w
      obtain ⟨_, hget⟩ := List.getElem?_eq_some_iff.1 hactor
      rw [hsame, ← hget, List.set_getElem_self]

theorem WellScripted.editScript_of_refused {α : Type} {edit : Script → Logged (Script × Option α)}
    (hscripts : w.WellScripted) (scriptId : String) (hedit : Script.Careful edit)
    (hn : (w.editScript id scriptId edit).value.2 = none) :
    (w.editScript id scriptId edit).value.1 = w := by
  apply editActor_of_refused _ hn
  intro actor hactor hn
  have hrefused := actor.editScript_of_refused scriptId hedit (hscripts actor hactor)
  rw [Logged.value_bind] at hn ⊢
  split
  · next edited result heq =>
    rw [heq] at hn
    contradiction
  · next edited heq =>
    rw [heq] at hrefused
    exact hrefused rfl

theorem WellScripted.reviseScript_of_refused {edit : Script → Logged (Script × Bool)}
    (hscripts : w.WellScripted) (scriptId : String) (r : Revision)
    (hr : ∀ s, (edit s).value = s.revise r)
    (hn : (w.reviseScript id scriptId edit).value.2 = false) :
    (w.reviseScript id scriptId edit).value.1 = w :=
  hscripts.editScript_of_refused scriptId (madeBy_of_value hr).careful
    (Option.isNone_iff_eq_none.1 (Option.isSome_eq_false_iff.1 hn))

theorem click_of_refused (hn : (w.click id).value.2 = false) : (w.click id).value.1 = w := by
  rw [click] at hn ⊢
  split
  · next hplaying =>
    rw [if_pos hplaying] at hn
    apply editActor_of_refused
    · intro actor _ hnone
      contradiction
    · simpa using hn
  · rfl

theorem addScript_of_refused (hw : w.Indexed) (hn : (w.addScript id).value.2 = none) :
    (w.addScript id).value.1 = w := by
  rw [addScript] at hn ⊢
  split
  · next hhas =>
    -- An object that is in the index is there, so that the edit gives a result.
    obtain ⟨actor, hactor⟩ := List.mem_map.1 (hw.has_iff.1 hhas)
    have hfound : w.actor? id = some actor := hw.actor?_eq_some_iff.2 hactor
    rw [if_pos hhas, (hw.count _).editActor_eq] at hn
    change ((w.actor? id).bind fun _ => some _) = none at hn
    rw [hfound] at hn
    contradiction
  · rfl

/-- An operation that is refused leaves a world as it was, but for the number in the next generated
id if it was to add a block. -/
theorem WellScripted.perform_of_refused (hscripts : w.WellScripted) (hw : w.Indexed)
    {operation : Operation} (hn : w.answers operation = false) :
    w.perform operation = w ∨
      (∃ id scriptId opcode parentKey, operation = .addBlock id scriptId opcode parentKey) ∧
        w.perform operation = { w with counter := w.counter + 1 } := by
  cases operation with
  | setPlaying | tick | addObject => contradiction
  | click id => exact .inl (click_of_refused hn)
  | updateObject id update =>
    have hn : (w.editActor id fun actor => (pure (update.apply actor, some ()) :
        Logged (Actor × Option Unit))).value.2 = none := by
      simpa [answers, World.updateObject] using hn
    refine .inl (editActor_of_refused ?_ hn)
    intro actor _ hnone
    contradiction
  | removeObject id =>
    left
    rw [answers, hw.answers_removeObject, Option.isSome_eq_false_iff,
      Option.isNone_iff_eq_none] at hn
    rw [World.perform, Indexed.removeObject_of_missing (hw.place_of_no_actor hn)]
  | addScript id => exact .inl (addScript_of_refused hw (by simpa [answers] using hn))
  | addBlock id scriptId opcode parentKey =>
    refine .inr ⟨⟨id, scriptId, opcode, parentKey, rfl⟩, ?_⟩
    have hcount : ({ w with counter := w.counter + 1 } : World).WellScripted := hscripts
    exact hcount.editScript_of_refused scriptId (madeBy_addBlock _ opcode parentKey).careful
      (by simpa [answers, addBlock] using hn)
  | updateBlock id scriptId key ps =>
    exact .inl (hscripts.reviseScript_of_refused scriptId (.updateBlock key ps) (fun _ => rfl) hn)
  | removeBlock id scriptId key =>
    exact .inl (hscripts.reviseScript_of_refused scriptId (.removeBlock key) (fun _ => rfl) hn)
  | reorderBlock id scriptId source target =>
    exact .inl (hscripts.reviseScript_of_refused scriptId (.reorderBlock source target)
      (fun _ => rfl) hn)

/-- What a world or a script refuses to do leaves it as it was. Only an object that refuses a new
block has the world count on to the next generated id. -/
theorem unchanged_of_refused :
    (∀ (w : World) (operation : Operation), w.Hosted → w.answers operation = false →
      w.perform operation = w ∨
        (∃ id scriptId opcode parentKey, operation = .addBlock id scriptId opcode parentKey) ∧
          w.perform operation = { w with counter := w.counter + 1 }) ∧
      ∀ (id name : String) (edits : List Script.Edit) (edit : Script.Edit),
        let s := (Script.empty id name).after edits
        s.accepts edit = false → s.perform edit = s := by
  constructor
  · intro w operation hw hn
    exact hw.wellScripted.perform_of_refused hw.assembled.indexed hn
  · intro id name edits edit s hn
    have hs : s.WellFormed := (Script.Sound.empty id name).after edits
    exact hs.perform_of_refused hn

theorem unchanged_of_refused_turning :
    let under : Operation := .reorderBlock "object-1" "script-2" "block-3" "block-4"
    let nowhere : Operation := .addBlock "object-1" "script-2" .wait (some "block-9")
    turning.Hosted ∧ turning.playing = true ∧
      turning.answers under = false ∧ turning.perform under = turning ∧
      turning.answers nowhere = false ∧
      turning.perform nowhere = { turning with counter := 5 } ∧
      Script.sliding.accepts (.reorder "start" "slide") = false ∧
      Script.sliding.perform (.reorder "start" "slide") = Script.sliding := by
  intro under nowhere
  have hw : turning.Hosted := Hosted.fresh.after _
  have hunder : turning.answers under = false := by decide +kernel
  have hnowhere : turning.answers nowhere = false := by decide +kernel
  have hstart : Script.sliding.accepts (.reorder "start" "slide") = false := by decide +kernel
  refine ⟨hw, by decide +kernel, hunder, ?_, hnowhere, ?_, hstart, ?_⟩
  · obtain hsame | ⟨⟨_, _, _, _, hadd⟩, _⟩ := unchanged_of_refused.1 turning under hw hunder
    · exact hsame
    · contradiction
  · obtain hsame | ⟨_, hcount⟩ := unchanged_of_refused.1 turning nowhere hw hnowhere
    · have hcounter : (turning.perform nowhere).counter = 5 := by decide +kernel
      rw [hsame] at hcounter
      have hbefore : turning.counter = 4 := by decide +kernel
      omega
    · exact hcount
  · exact unchanged_of_refused.2 _ _ _ _ hstart

end BlockScript.World
