import BlockScript.Proofs.World.Assembled

namespace BlockScript.World

variable {w : World} {id : String} {actor : Actor}

def eventsOf (w : World) (id : String) : List Operation → List Actor.Event
  | [] => []
  | operation :: operations =>
    operation.eventsFor id w.playing w.counter ++ (w.perform operation).eventsOf id operations

theorem Indexed.actor?_after (hw : w.Indexed) (hactor : w.actor? id = some actor)
    {operations : List Operation} (hkept : ∀ operation ∈ operations, operation.removed? ≠ some id) :
    (w.after operations).actor? id = some (actor.handleAll (w.eventsOf id operations)) := by
  induction operations generalizing w actor with
  | nil => exact hactor
  | cons operation operations ih =>
    obtain ⟨hfirst, hrest⟩ := List.forall_mem_cons.1 hkept
    have hlater := ih (hw.perform operation) (hw.actor?_perform hactor hfirst) hrest
    rw [eventsOf, Actor.handleAll, List.foldl_append]
    exact hlater

theorem Indexed.actor?_perform_of_other {operation : Operation} {other : String} (hw : w.Indexed)
    (hactor : w.actor? id = some actor) (hid : operation.addressee? = some other)
    (hne : other ≠ id) : (w.perform operation).actor? id = some actor := by
  have hkept : operation.removed? ≠ some id := by
    intro h
    obtain rfl := Operation.eq_of_removed? h
    exact hne (Option.some.inj hid).symm
  rw [hw.actor?_perform hactor hkept, Operation.eventsFor_of_ne hid hne]
  rfl

/-- After any operations that do not remove it an object is what it would be, had it been told alone
what they tell it. What is told another object, or that there is a new one, leaves it as it is. -/
theorem actor?_after_eq_alone (hw : w.Assembled) (hactor : w.actor? id = some actor) :
    (∀ operations : List Operation, (∀ operation ∈ operations, operation.removed? ≠ some id) →
        (w.after operations).actor? id = some (actor.handleAll (w.eventsOf id operations))) ∧
      (∀ (operation : Operation) other, operation.addressee? = some other → other ≠ id →
        (w.perform operation).actor? id = some actor) ∧
      ∀ shape, (w.perform (.addObject shape)).actor? id = some actor := by
  refine ⟨fun _ => hw.indexed.actor?_after hactor,
    fun _ _ => hw.indexed.actor?_perform_of_other hactor, ?_⟩
  intro shape
  have hkept : Operation.removed? (.addObject shape) ≠ some id := nofun
  exact hw.indexed.actor?_perform hactor hkept

theorem actor?_after_eq_alone_turning :
    let operations : List Operation := [.removeObject "floor", .addObject .sphere, .tick 1 1,
      .addScript "object-5", .addBlock "object-1" "script-2" .wait none, .setPlaying true,
      .click "object-1", .setPlaying false]
    let events : List Actor.Event := [.tick 1 1 true,
      .revise "script-2" (.addBlock "block-8" .wait none) true, .click, .stop]
    ∃ actor, turning.actor? "object-1" = some actor ∧
      turning.eventsOf "object-1" operations = events ∧
      (turning.after operations).actor? "object-1" = some (actor.handleAll events) := by
  intro operations events
  have hpresent : (turning.actor? "object-1").isSome = true := by decide +kernel
  obtain ⟨actor, hactor⟩ := Option.isSome_iff_exists.1 hpresent
  have hw : turning.Assembled := Assembled.fresh.after _
  have hevents : turning.eventsOf "object-1" operations = events := by
    rfl
  refine ⟨actor, hactor, hevents, ?_⟩
  rw [← hevents]
  exact (actor?_after_eq_alone hw hactor).1 operations (by decide)

end BlockScript.World
