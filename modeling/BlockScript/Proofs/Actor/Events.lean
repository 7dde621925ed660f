import BlockScript.World.Edit

namespace BlockScript

/-- A change of one script, told by the keys of its blocks. -/
inductive Revision where
  | addBlock (key : String) (opcode : Opcode) (parentKey : Option String)
  | updateBlock (key : String) (ps : Params)
  | removeBlock (key : String)
  | reorderBlock (source target : String)

/-- The script after a change, and whether that was carried out. -/
def Script.revise (s : Script) : Revision → Script × Bool
  | .addBlock key opcode parentKey =>
    match s.parent? parentKey with
    | none => (s, false)
    | some parent =>
      let (s, handle) := s.insert key (.authoringDefault opcode) parent
      (s, handle.isSome)
  | .updateBlock key ps => (s.configure key ps).value
  | .removeBlock key => s.remove key
  | .reorderBlock source target => s.reorder source target

/-- Whether an edit makes a change and tells if that was carried out. -/
def Revision.MadeBy {α : Type} (r : Revision) (edit : Script → Logged (Script × Option α)) : Prop :=
  ∀ s, (edit s).value.1 = (s.revise r).1 ∧ (edit s).value.2.isSome = (s.revise r).2

theorem madeBy_of_value {r : Revision} {edit : Script → Logged (Script × Bool)}
    (h : ∀ s, (edit s).value = s.revise r) : r.MadeBy fun s => do
      let (s, done) ← edit s
      return (s, if done then some () else none) := by
  intro s
  rw [← h s]
  refine ⟨rfl, ?_⟩
  change (if (edit s).value.2 = true then some () else none).isSome = (edit s).value.2
  cases (edit s).value.2 <;> rfl

theorem madeBy_addBlock (key : String) (opcode : Opcode) (parentKey : Option String) :
    (Revision.addBlock key opcode parentKey).MadeBy fun s => match s.parent? parentKey with
      | none => (pure (s, none) : Logged (Script × Option String))
      | some parent =>
        let (s, handle) := s.insert key (.authoringDefault opcode) parent
        pure (s, handle.map fun _ => key) := by
  intro s
  dsimp only [Script.revise]
  cases s.parent? parentKey with
  | none => exact ⟨rfl, rfl⟩
  | some parent => exact ⟨rfl, Option.isSome_map⟩

namespace Actor

/-- What an actor is told. An edit of its scripts also tells whether scripts run meanwhile. -/
inductive Event where
  | start
  | stop
  | click
  | tick (now delta : Float) (playing : Bool)
  | update (u : World.ObjectUpdate)
  | addScript (number : Nat) (playing : Bool)
  | revise (scriptId : String) (r : Revision) (playing : Bool)

def startIf (playing : Bool) (actor : Actor) : Actor :=
  if playing then actor.start.value else actor

/-- The actor after an event. An edit that is carried out while scripts run starts it over. -/
def handle (actor : Actor) : Event → Actor
  | .start => actor.start.value
  | .stop => actor.stop
  | .click => actor.click.value.1
  | .tick now delta playing => (actor.tick now delta playing).value
  | .update u => u.apply actor
  | .addScript number playing =>
    startIf playing { actor with scripts := actor.scripts ++ [World.newScript number] }
  | .revise scriptId r playing =>
    let edit (s : Script) : Logged (Script × Option Unit) :=
      return ((s.revise r).1, if (s.revise r).2 then some () else none)
    let (edited, done) := (actor.editScript scriptId edit).value
    startIf (playing && done.isSome) edited

def accepts (actor : Actor) : Event → Bool
  | .revise scriptId r _ => (actor.script? scriptId).any fun s => (s.revise r).2
  | _ => true

/-- Any two edits that make a change leave the same actor. -/
theorem editScript_of_madeBy {α : Type} {r : Revision}
    {edit : Script → Logged (Script × Option α)} (h : r.MadeBy edit) (actor : Actor)
    (scriptId : String) (playing : Bool) :
    startIf (playing && (actor.editScript scriptId edit).value.2.isSome)
        (actor.editScript scriptId edit).value.1 = actor.handle (.revise scriptId r playing) ∧
      (actor.editScript scriptId edit).value.2.isSome =
        actor.accepts (.revise scriptId r playing) := by
  simp only [handle, accepts, editScript]
  cases actor.script? scriptId with
  | none => exact ⟨rfl, rfl⟩
  | some s =>
    obtain ⟨hscript, hdone⟩ := h s
    simp only [Logged.value_bind, Logged.value_pure, Option.any_some, hscript, hdone, and_true]
    cases (s.revise r).2 <;> rfl

def handleAll (actor : Actor) (events : List Event) : Actor := events.foldl handle actor

theorem id_runThread (now : Float) (actor : Actor) (entry : String × Thread) :
    (actor.runThread now entry).value.id = actor.id := by
  rw [runThread]
  split <;> rfl

theorem id_runThreads (actor : Actor) (now : Float) :
    (actor.runThreads now).value.id = actor.id := by
  rw [runThreads, Logged.value_foldlM]
  generalize actor.threads.toList = entries
  induction entries generalizing actor with
  | nil => rfl
  | cons entry rest ih => exact (ih _).trans (id_runThread now actor entry)

theorem id_tick (actor : Actor) (now delta : Float) (playing : Bool) :
    (actor.tick now delta playing).value.id = actor.id := by
  rw [tick]
  split
  · rfl
  · split
    · exact id_runThreads actor now
    · rfl

theorem id_editScript {α : Type} (actor : Actor) (scriptId : String)
    (edit : Script → Logged (Script × Option α)) :
    (actor.editScript scriptId edit).value.1.id = actor.id := by
  rw [editScript]
  split <;> rfl

theorem id_startIf (playing : Bool) (actor : Actor) : (startIf playing actor).id = actor.id := by
  cases playing <;> rfl

theorem id_handle (actor : Actor) (event : Event) : (actor.handle event).id = actor.id := by
  cases event with
  | tick now delta playing => exact id_tick actor now delta playing
  | addScript number playing => exact id_startIf playing _
  | revise scriptId r playing => exact (id_startIf _ _).trans (id_editScript actor scriptId _)
  | _ => rfl

theorem id_handleAll (actor : Actor) (events : List Event) :
    (actor.handleAll events).id = actor.id := by
  induction events generalizing actor with
  | nil => rfl
  | cons event events ih => exact (ih _).trans (id_handle actor event)

end Actor

end BlockScript
