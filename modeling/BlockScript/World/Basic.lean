import BlockScript.Actor

namespace BlockScript

structure World where
  actors : List Actor
  places : Std.ExtTreeMap String Nat
  environment : Color
  user : String
  playing : Bool
  /-- The number in the id generated last. -/
  counter : Nat

namespace World

def empty (environment : Color) : World := ⟨[], ∅, environment, "me", false, 0⟩

def has (w : World) (id : String) : Bool := w.places.contains id

def actor? (w : World) (id : String) : Option Actor := do
  w.actors[← w.places[id]?]?

def append (w : World) (actor : Actor) : World :=
  { w with
    actors := w.actors ++ [actor]
    places := w.places.insert actor.id w.actors.length }

def appendNew (w : World) (actor : Actor) : Logged World :=
  if w.has actor.id then do
    Logged.note (.duplicateObject actor.id)
    return w
  else return w.append actor

/-- A world of actors, of which only the first of each id is kept. -/
def ofActors (actors : List Actor) (environment : Color) : Logged World :=
  actors.foldlM appendNew (empty environment)

def ground : Actor where
  id := "floor"
  name := "Ground"
  shape := .plane
  behaviors := []
  scripts := []
  locked := true
  createdBy := "system"
  appearance :=
    { transform :=
        { position := ⟨0, -0.5, 0⟩
          rotation := ⟨-Float32.ofBits 0x3fc90fdb, 0, 0⟩
          scale := ⟨20, 20, 1⟩ }
      color := ⟨0xe5, 0xe7, 0xeb⟩ }
  threads := ∅

def fresh : World := (empty ⟨0xf3, 0xf4, 0xf6⟩).append ground

def setPlaying (w : World) (playing : Bool) : Logged World :=
  if w.playing = playing then return w
  else do
    let actors ← w.actors.mapM fun actor => if playing then actor.start else return actor.stop
    Logged.note (.switched playing)
    return { w with playing, actors }

def tick (w : World) (now delta : Float) : Logged World := do
  return { w with actors := ← w.actors.mapM (·.tick now delta w.playing) }

def editActor {α : Type} (w : World) (id : String)
    (edit : Actor → Logged (Actor × Option α)) : Logged (World × Option α) :=
  match w.places[id]? with
  | none => return (w, none)
  | some place => match w.actors[place]? with
    | none => return (w, none)
    | some actor => do
      let (edited, a) ← edit actor
      return ({ w with actors := w.actors.set place edited }, a)

/-- Clicks an actor. While a world is edited clicks have no effect. -/
def click (w : World) (id : String) : Logged (World × Bool) :=
  if w.playing then do
    let (w, clicked) ← w.editActor id fun actor => do
      let (actor, count) ← actor.click
      return (actor, some count)
    return (w, clicked.isSome)
  else return (w, false)

end World

end BlockScript
