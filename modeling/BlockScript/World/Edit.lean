import BlockScript.World.Basic

namespace BlockScript.World

def palette : List Color :=
  [⟨0x3b, 0x82, 0xf6⟩, ⟨0xef, 0x44, 0x44⟩, ⟨0x10, 0xb9, 0x81⟩, ⟨0xf5, 0x9e, 0x0b⟩,
    ⟨0x8b, 0x5c, 0xf6⟩, ⟨0xec, 0x48, 0x99⟩]

def generatedId (kind : String) (number : Nat) : String :=
  kind ++ "-" ++ toString number

/-- The first number from `number` on for which no object has the generated id. After as many
rounds as there are objects the next number has to be free. -/
def freeNumber (w : World) : Nat → Nat → Nat
  | 0, number => number
  | rounds + 1, number =>
    if w.has (generatedId "object" number) then w.freeNumber rounds (number + 1) else number

def newActor (shape : Shape) (user : String) (number : Nat) : Actor where
  id := generatedId "object" number
  name := if shape = .spawn then "Spawn Pad" else "New " ++ shape.name
  shape := shape
  behaviors := []
  scripts := []
  locked := false
  createdBy := user
  appearance :=
    if shape = .spawn then ⟨⟨⟨0, 0.1, 0⟩, .zero, ⟨1, 0.2, 1⟩⟩, ⟨0x37, 0x41, 0x51⟩⟩
    else ⟨{ Transform.identity with position := ⟨0, 0.5, 0⟩ },
      palette.getD (number % palette.length) .white⟩
  threads := ∅

def addObject (w : World) (shape : Shape) : Logged (World × String) := do
  let number := w.freeNumber w.actors.length (w.counter + 1)
  let actor := newActor shape w.user number
  let w := { w with counter := number }
  return (w.append (← if w.playing then actor.start else pure actor), actor.id)

structure ObjectUpdate where
  name : Option String
  position : Option Vec3
  rotation : Option Vec3
  scale : Option Vec3
  color : Option Color
  locked : Option Bool

def ObjectUpdate.apply (u : ObjectUpdate) (actor : Actor) : Actor :=
  let t := actor.appearance.transform
  { actor with
    name := u.name.getD actor.name
    locked := u.locked.getD actor.locked
    appearance :=
      { transform :=
          { position := u.position.getD t.position
            rotation := u.rotation.getD t.rotation
            scale := u.scale.getD t.scale }
        color := u.color.getD actor.appearance.color } }

def updateObject (w : World) (id : String) (u : ObjectUpdate) : Logged (World × Bool) := do
  let (w, updated) ← w.editActor id fun actor => return (u.apply actor, some ())
  return (w, updated.isSome)

/-- The places after each of some actors has moved up by one. -/
def movedUp (places : Std.ExtTreeMap String Nat) (actors : List Actor) :
    Std.ExtTreeMap String Nat :=
  actors.foldl (fun places actor => places.modify actor.id (· - 1)) places

def removeObject (w : World) (id : String) : World × Bool :=
  match w.places[id]? with
  | none => (w, false)
  | some place =>
    let actors := w.actors.eraseIdx place
    ({ w with actors, places := movedUp (w.places.erase id) (actors.drop place) }, true)

def restart (w : World) (actor : Actor) : Logged Actor :=
  if w.playing then actor.start else return actor

def newScript (number : Nat) : Script :=
  ((Script.empty (generatedId "script" number) "New Script").insert
    (generatedId "block" (number + 1)) .onStart none).1

def addScript (w : World) (id : String) : Logged (World × Option String) :=
  if w.has id then
    let number := w.counter + 1
    let s := newScript number
    { w with counter := number + 1 }.editActor id fun actor => do
      return (← w.restart { actor with scripts := actor.scripts ++ [s] }, some s.id)
  else return (w, none)

/-- Edits a script of an object. An edit that is carried out starts the object over, so that no thread
goes on in a script that it was not started in. -/
def editScript {α : Type} (w : World) (id scriptId : String)
    (edit : Script → Logged (Script × Option α)) : Logged (World × Option α) :=
  w.editActor id fun actor => do
    match ← actor.editScript scriptId edit with
    | (actor, some a) => return (← w.restart actor, some a)
    | (actor, none) => return (actor, none)

def reviseScript (w : World) (id scriptId : String) (edit : Script → Logged (Script × Bool)) :
    Logged (World × Bool) := do
  let (w, done) ← w.editScript id scriptId fun s => do
    let (s, done) ← edit s
    return (s, if done then some () else none)
  return (w, done.isSome)

/-- Adds a block as the last one under a parent, or as the last root, and gives its key. -/
def addBlock (w : World) (id scriptId : String) (opcode : Opcode) (parentKey : Option String) :
    Logged (World × Option String) :=
  let number := w.counter + 1
  let key := generatedId "block" number
  { w with counter := number }.editScript id scriptId fun s =>
    match s.parent? parentKey with
    | none => return (s, none)
    | some parent =>
      let (s, handle) := s.insert key (.authoringDefault opcode) parent
      return (s, handle.map fun _ => key)

def updateBlock (w : World) (id scriptId key : String) (ps : Params) : Logged (World × Bool) :=
  w.reviseScript id scriptId (·.configure key ps)

def removeBlock (w : World) (id scriptId key : String) : Logged (World × Bool) :=
  w.reviseScript id scriptId fun s => return s.remove key

def reorderBlock (w : World) (id scriptId source target : String) : Logged (World × Bool) :=
  w.reviseScript id scriptId fun s => return s.reorder source target

end BlockScript.World
