import BlockScript.Proofs.Actor.Events
import BlockScript.Proofs.World.Index
import BlockScript.Proofs.World.Threads

namespace BlockScript.World

variable {w : World} {id : String} {operation : Operation}

/-- The id of the object that an operation is about, unless it is about all of them or a new one. -/
def Operation.addressee? : Operation → Option String
  | .setPlaying _ | .tick .. | .addObject _ => none
  | .click id | .updateObject id _ | .removeObject id | .addScript id | .addBlock id ..
  | .updateBlock id .. | .removeBlock id .. | .reorderBlock id .. => some id

def Operation.removed? : Operation → Option String
  | .removeObject id => some id
  | _ => none

/-- What an operation tells those that it is about, in a mode and with the number in the id
generated last. -/
def Operation.events (playing : Bool) (counter : Nat) : Operation → List Actor.Event
  | .setPlaying next => if playing = next then [] else if next then [.start] else [.stop]
  | .tick now delta => [.tick now delta playing]
  | .click _ => if playing then [.click] else []
  | .addObject _ | .removeObject _ => []
  | .updateObject _ update => [.update update]
  | .addScript _ => [.addScript (counter + 1) playing]
  | .addBlock _ scriptId opcode parentKey =>
    [.revise scriptId (.addBlock (generatedId "block" (counter + 1)) opcode parentKey) playing]
  | .updateBlock _ scriptId key ps => [.revise scriptId (.updateBlock key ps) playing]
  | .removeBlock _ scriptId key => [.revise scriptId (.removeBlock key) playing]
  | .reorderBlock _ scriptId source target =>
    [.revise scriptId (.reorderBlock source target) playing]

/-- What an operation tells the object with an id. -/
def Operation.eventsFor (id : String) (playing : Bool) (counter : Nat) (operation : Operation) :
    List Actor.Event :=
  if operation.addressee?.all (· = id) then operation.events playing counter else []

theorem Operation.eq_of_removed? (h : operation.removed? = some id) :
    operation = .removeObject id := by
  cases operation with
  | removeObject removed => exact congrArg Operation.removeObject (Option.some.inj h)
  | _ => contradiction

theorem Operation.eventsFor_of_ne {other : String} (hid : operation.addressee? = some other)
    (hne : other ≠ id) (playing : Bool) (counter : Nat) :
    operation.eventsFor id playing counter = [] := by
  rw [eventsFor, hid, Option.all_some, if_neg]
  simpa using hne

def answers (w : World) : Operation → Bool
  | .setPlaying _ | .tick .. | .addObject _ => true
  | .click id => (w.click id).value.2
  | .updateObject id update => (w.updateObject id update).value.2
  | .removeObject id => (w.removeObject id).2
  | .addScript id => (w.addScript id).value.2.isSome
  | .addBlock id scriptId opcode parentKey =>
    (w.addBlock id scriptId opcode parentKey).value.2.isSome
  | .updateBlock id scriptId key ps => (w.updateBlock id scriptId key ps).value.2
  | .removeBlock id scriptId key => (w.removeBlock id scriptId key).value.2
  | .reorderBlock id scriptId source target => (w.reorderBlock id scriptId source target).value.2

/-- Some events told to the object with an id and to no other one, and the answer to them. -/
structure Told (w : World) (id : String) (events : List Actor.Event) (told : World)
    (answer : Bool) : Prop where
  actors : told.actors = w.actors.map fun a => if a.id = id then a.handleAll events else a
  places : told.places = w.places
  answer : answer = (w.actor? id).any fun a => events.any a.accepts

theorem Told.nothing (w : World) (id : String) : w.Told id [] w false where
  actors := by
    simp only [Actor.handleAll, List.foldl_nil, ite_self, List.map_id']
  places := rfl
  answer := by
    cases w.actor? id <;> rfl

theorem Told.of_count {counter : Nat} {events : List Actor.Event} {told : World} {answer : Bool}
    (h : ({ w with counter } : World).Told id events told answer) : w.Told id events told answer :=
  ⟨h.actors, h.places, h.answer⟩

theorem restart_eq (w : World) (actor : Actor) :
    (w.restart actor).value = Actor.startIf w.playing actor := by
  rw [restart, Actor.startIf]
  split <;> rfl

theorem setPlaying_told (w : World) (playing : Bool) :
    (w.setPlaying playing).value.actors = (w.actors.map fun a =>
        a.handleAll (Operation.events w.playing w.counter (.setPlaying playing))) ∧
      (w.setPlaying playing).value.places = w.places := by
  by_cases h : w.playing = playing
  · rw [World.setPlaying, if_pos h, Operation.events, if_pos h]
    exact ⟨(List.map_id' _).symm, rfl⟩
  · rw [setPlaying_eq h, Operation.events, if_neg h]
    cases playing <;> exact ⟨rfl, rfl⟩

namespace Indexed

theorem count (hw : w.Indexed) (counter : Nat) : ({ w with counter } : World).Indexed := hw

theorem told_of_no_place (hw : w.Indexed) (hn : w.places[id]? = none)
    (events : List Actor.Event) : w.Told id events w false where
  actors := (hw.map_of_no_place hn _).symm
  places := rfl
  answer := by
    rw [hw.actor?_eq_find?, hw.find?_of_no_place hn]
    rfl

theorem told_editActor {α : Type} (hw : w.Indexed) (id : String) (event : Actor.Event)
    {edit : Actor → Logged (Actor × Option α)}
    (hedit : ∀ a, (edit a).value.1 = a.handle event ∧ (edit a).value.2.isSome = a.accepts event) :
    w.Told id [event] (w.editActor id edit).value.1 (w.editActor id edit).value.2.isSome := by
  rw [hw.editActor_eq]
  constructor
  · apply List.map_congr_left
    intro a _
    rw [(hedit a).1]
    rfl
  · rfl
  · cases w.actor? id with
    | none => rfl
    | some a => exact (hedit a).2.trans (Bool.or_false _).symm

theorem told_editScript {α : Type} (hw : w.Indexed) (id scriptId : String) {r : Revision}
    {edit : Script → Logged (Script × Option α)} (hr : r.MadeBy edit) :
    w.Told id [.revise scriptId r w.playing] (w.editScript id scriptId edit).value.1
      (w.editScript id scriptId edit).value.2.isSome := by
  apply hw.told_editActor id
  intro a
  obtain ⟨hactor, hdone⟩ := a.editScript_of_madeBy hr scriptId w.playing
  rw [← hactor, ← hdone, Logged.value_bind]
  -- Only an edit that is carried out starts the actor over.
  split
  · next edited result heq =>
    rw [heq, Option.isSome_some, Bool.and_true, ← restart_eq]
    exact ⟨rfl, rfl⟩
  · next edited heq =>
    rw [heq, Option.isSome_none, Bool.and_false]
    exact ⟨rfl, rfl⟩

theorem told_reviseScript (hw : w.Indexed) (id scriptId : String) {r : Revision}
    {edit : Script → Logged (Script × Bool)} (hr : ∀ s, (edit s).value = s.revise r) :
    w.Told id [.revise scriptId r w.playing] (w.reviseScript id scriptId edit).value.1
      (w.reviseScript id scriptId edit).value.2 :=
  hw.told_editScript id scriptId (madeBy_of_value hr)

theorem told_addBlock (hw : w.Indexed) (id scriptId : String) (opcode : Opcode)
    (parentKey : Option String) :
    let key := generatedId "block" (w.counter + 1)
    w.Told id [.revise scriptId (.addBlock key opcode parentKey) w.playing]
      (w.addBlock id scriptId opcode parentKey).value.1
      (w.addBlock id scriptId opcode parentKey).value.2.isSome := by
  intro key
  have hmade := madeBy_addBlock key opcode parentKey
  exact ((hw.count (w.counter + 1)).told_editScript id scriptId hmade).of_count

theorem told_addScript (hw : w.Indexed) (id : String) :
    w.Told id [.addScript (w.counter + 1) w.playing] (w.addScript id).value.1
      (w.addScript id).value.2.isSome := by
  rw [World.addScript]
  split
  · refine ((hw.count _).told_editActor id _ ?_).of_count
    intro a
    rw [Logged.value_bind, restart_eq]
    exact ⟨rfl, rfl⟩
  · next hhas => exact hw.told_of_no_place (by simpa [has_eq_isSome] using hhas) _

theorem told_click (hw : w.Indexed) (id : String) :
    w.Told id (if w.playing then [.click] else []) (w.click id).value.1 (w.click id).value.2 := by
  rw [World.click]
  split
  · apply hw.told_editActor id
    exact fun _ => ⟨rfl, rfl⟩
  · exact .nothing w id

/-- An operation on one object tells that one what it is about, and the others nothing. -/
theorem told (hw : w.Indexed) (hid : operation.addressee? = some id)
    (hkept : operation.removed? = none) :
    w.Told id (operation.events w.playing w.counter) (w.perform operation) (w.answers operation) := by
  cases operation with
  | setPlaying | tick | addObject | removeObject => contradiction
  | click =>
    obtain rfl := Option.some.inj hid
    exact hw.told_click _
  | updateObject _ update =>
    obtain rfl := Option.some.inj hid
    exact hw.told_editActor _ _ fun _ => ⟨rfl, rfl⟩
  | addScript =>
    obtain rfl := Option.some.inj hid
    exact hw.told_addScript _
  | addBlock _ scriptId opcode parentKey =>
    obtain rfl := Option.some.inj hid
    exact hw.told_addBlock _ scriptId opcode parentKey
  | updateBlock _ scriptId key ps =>
    obtain rfl := Option.some.inj hid
    exact hw.told_reviseScript _ scriptId fun _ => rfl
  | removeBlock _ scriptId key =>
    obtain rfl := Option.some.inj hid
    exact hw.told_reviseScript _ scriptId fun _ => rfl
  | reorderBlock _ scriptId source target =>
    obtain rfl := Option.some.inj hid
    exact hw.told_reviseScript _ scriptId fun _ => rfl

theorem perform_of_kept (hw : w.Indexed) (hadded : ∀ shape, operation ≠ .addObject shape)
    (hkept : operation.removed? = none) :
    (w.perform operation).actors = (w.actors.map fun a =>
        a.handleAll (operation.eventsFor a.id w.playing w.counter)) ∧
      (w.perform operation).places = w.places := by
  cases hid : operation.addressee? with
  | some id =>
    have htold := hw.told hid hkept
    refine ⟨htold.actors.trans (List.map_congr_left ?_), htold.places⟩
    intro a _
    by_cases ha : a.id = id
    · rw [if_pos ha, Operation.eventsFor, hid, Option.all_some, if_pos (decide_eq_true ha.symm)]
    · rw [if_neg ha, Operation.eventsFor_of_ne hid (Ne.symm ha)]
      rfl
  | none =>
    cases operation with
    | setPlaying playing => exact setPlaying_told w playing
    | tick now delta => exact ⟨actors_tick w now delta, rfl⟩
    | addObject shape => exact absurd rfl (hadded shape)
    | _ => contradiction

theorem perform (hw : w.Indexed) (operation : Operation) : (w.perform operation).Indexed := by
  by_cases hadded : ∃ shape, operation = .addObject shape
  · obtain ⟨shape, rfl⟩ := hadded
    rw [World.perform, addObject_eq]
    apply (hw.count _).append
    rw [restart_eq, Actor.id_startIf]
    exact hw.has_freeNumber _
  · cases hremoved : operation.removed? with
    | none =>
      obtain ⟨hactors, hplaces⟩ := hw.perform_of_kept (not_exists.1 hadded) hremoved
      apply hw.of_same _ hplaces
      rw [World.ids, hactors, List.map_map]
      exact List.map_congr_left fun a _ => a.id_handleAll _
    | some id =>
      obtain rfl := Operation.eq_of_removed? hremoved
      exact hw.removeObject id

theorem actor?_perform {actor : Actor} (hw : w.Indexed) (hactor : w.actor? id = some actor)
    (hkept : operation.removed? ≠ some id) :
    (w.perform operation).actor? id =
      some (actor.handleAll (operation.eventsFor id w.playing w.counter)) := by
  obtain ⟨hmem, rfl⟩ := hw.actor?_eq_some_iff.1 hactor
  rw [(hw.perform operation).actor?_eq_some_iff]
  refine ⟨?_, actor.id_handleAll _⟩
  by_cases hadded : ∃ shape, operation = .addObject shape
  · obtain ⟨shape, rfl⟩ := hadded
    rw [World.perform, addObject_eq]
    exact List.mem_append_left _ hmem
  · cases hremoved : operation.removed? with
    | none =>
      rw [(hw.perform_of_kept (not_exists.1 hadded) hremoved).1]
      exact List.mem_map.2 ⟨actor, hmem, rfl⟩
    | some removed =>
      obtain rfl := Operation.eq_of_removed? hremoved
      have hne : removed ≠ actor.id := fun he => hkept (congrArg some he)
      have hothers : actor ∈ w.actors.filter (·.id ≠ removed) :=
        List.mem_filter.2 ⟨hmem, decide_eq_true hne.symm⟩
      rw [World.perform, hw.actors_removeObject, Operation.eventsFor_of_ne rfl hne]
      exact hothers

end Indexed

end BlockScript.World
