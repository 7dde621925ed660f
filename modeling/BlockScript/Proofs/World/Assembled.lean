import BlockScript.Proofs.World.Events

namespace BlockScript.World

variable {w : World}

/-- The worlds that come of a fresh one, of any objects or of a loaded one by operations, and by
what a host may set in them at any time. -/
inductive Assembled : World → Prop
  | fresh : Assembled fresh
  | ofActors (actors : List Actor) (environment : Color) :
      Assembled (ofActors actors environment).value
  | parse {text : String} {loaded : Logged World} (hparse : parse text = .ok loaded) :
      Assembled loaded.value
  | adjust {w : World} (hw : Assembled w) (environment : Color) (user : String) :
      Assembled { w with environment, user }
  | perform {w : World} (hw : Assembled w) (operation : Operation) :
      Assembled (w.perform operation)

theorem Assembled.after (hw : w.Assembled) (operations : List Operation) :
    (w.after operations).Assembled := by
  induction operations generalizing w with
  | nil => exact hw
  | cons operation operations ih => exact ih (hw.perform operation)

theorem indexed_of_parse {text : String} {loaded : Logged World}
    (hparse : World.parse text = .ok loaded) : loaded.value.Indexed := by
  rw [World.parse] at hparse
  cases hread : Authored.World.read text with
  | error fault => rw [hread] at hparse; contradiction
  | ok authored =>
    rw [hread] at hparse
    obtain rfl := Except.ok.inj hparse
    exact indexed_ofActors _ _

theorem Assembled.indexed (hw : w.Assembled) : w.Indexed := by
  induction hw with
  | fresh => exact (Indexed.empty _).append rfl
  | ofActors actors environment => exact indexed_ofActors actors environment
  | parse hparse => exact indexed_of_parse hparse
  | adjust _ environment user ih => exact ih.of_same rfl rfl
  | perform _ operation ih => exact ih.perform operation

theorem Indexed.told_no_actor {id : String} {operation : Operation} (hw : w.Indexed)
    (hid : operation.addressee? = some id) (hn : w.actor? id = none) :
    (w.perform operation).actors = w.actors ∧ w.answers operation = false := by
  have hplace := hw.place_of_no_actor hn
  cases hremoved : operation.removed? with
  | none =>
    have htold := hw.told hid hremoved
    refine ⟨htold.actors.trans (hw.map_of_no_place hplace _), htold.answer.trans ?_⟩
    rw [hn]
    rfl
  | some removed =>
    obtain rfl := Operation.eq_of_removed? hremoved
    obtain rfl := Option.some.inj hid
    rw [World.perform, answers, removeObject_of_missing hplace]
    exact ⟨rfl, rfl⟩

theorem Indexed.answers_removeObject (hw : w.Indexed) (id : String) :
    (w.removeObject id).2 = (w.actor? id).isSome := by
  rw [hw.isSome_actor?, World.removeObject]
  cases w.places[id]? <;> rfl

/-- Of some objects a world has the first one of each id. Whatever is done to it from then on, its
index has one place for each object, and the place is that of the object. So an object is found by
its id, an operation reaches the one object that has the id or is answered with failure, and to
remove an object leaves all others in their order. -/
theorem index_of_assembled :
    (∀ actors environment, (ofActors actors environment).value.actors = firstOfEach actors) ∧
      ∀ w : World, w.Assembled →
        w.ids.Nodup ∧ w.places.size = w.actors.length ∧
          (∀ (place : Nat) actor, w.actors[place]? = some actor →
            w.places[actor.id]? = some place) ∧
          (∀ (id : String) (place : Nat), w.places[id]? = some place →
            ∃ actor, w.actors[place]? = some actor ∧ actor.id = id) ∧
          (∀ id, w.actor? id = w.actors.find? (·.id = id)) ∧
          (∀ operation id, operation.addressee? = some id → operation.removed? = none →
            w.Told id (operation.events w.playing w.counter) (w.perform operation)
              (w.answers operation)) ∧
          (∀ operation id, operation.addressee? = some id → w.actor? id = none →
            (w.perform operation).actors = w.actors ∧ w.answers operation = false) ∧
          ∀ id, (w.removeObject id).1.actors = w.actors.filter (·.id ≠ id) ∧
            (w.removeObject id).2 = (w.actor? id).isSome := by
  refine ⟨actors_ofActors, fun w hassembled => ?_⟩
  have hw := hassembled.indexed
  refine ⟨hw.nodup, hw.size_eq, fun _ _ => hw.places_of_actor, ?_, hw.actor?_eq_find?,
    fun _ _ => hw.told, fun _ _ => hw.told_no_actor, ?_⟩
  · intro id place hplace
    exact getElem?_ids.1 ((hw id place).1 hplace)
  · intro id
    exact ⟨hw.actors_removeObject id, hw.answers_removeObject id⟩

/-- A world in which two objects moved up when the one before them was removed. -/
def thinned : World :=
  (ofActors [ground, { ground with id := "box" }, { ground with name := "Other" },
    { ground with id := "ball" }] .white).value.perform (.removeObject "floor")

theorem index_of_assembled_thinned :
    thinned.ids = ["box", "ball"] ∧ thinned.places.size = 2 ∧
      thinned.places["ball"]? = some 1 ∧
      (∃ actor, thinned.actors[1]? = some actor ∧ actor.id = "ball") ∧
      thinned.Told "ball" [.addScript 1 false] (thinned.perform (.addScript "ball"))
        (thinned.answers (.addScript "ball")) ∧
      thinned.answers (.updateObject "floor" ⟨none, none, none, none, none, none⟩) = false := by
  have hthinned : thinned.Assembled := (Assembled.ofActors _ _).perform _
  obtain ⟨_, hsize, _, hstored, _, htold, hmissing, _⟩ := index_of_assembled.2 thinned hthinned
  have hids : thinned.ids = ["box", "ball"] := by decide +kernel
  have hball : thinned.places["ball"]? = some 1 := by decide +kernel
  have hfloor : thinned.actor? "floor" = none :=
    Option.isNone_iff_eq_none.1 (by decide +kernel)
  refine ⟨hids, ?_, hball, hstored "ball" 1 hball, htold (.addScript "ball") "ball" rfl rfl,
    (hmissing (.updateObject "floor" _) "floor" rfl hfloor).2⟩
  rw [hsize, ← List.length_map, ← ids, hids]
  rfl

end BlockScript.World
