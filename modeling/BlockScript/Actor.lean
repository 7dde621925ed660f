import BlockScript.Behavior
import BlockScript.Script.Edit
import BlockScript.Thread.Advance

namespace BlockScript

inductive Shape
  | cube
  | sphere
  | cylinder
  | plane
  | model
  | spawn
deriving DecidableEq

namespace Shape

def all : List Shape := [cube, sphere, cylinder, plane, model, spawn]

def name : Shape → String
  | cube => "CUBE"
  | sphere => "SPHERE"
  | cylinder => "CYLINDER"
  | plane => "PLANE"
  | model => "MODEL"
  | spawn => "SPAWN"

end Shape

structure Actor where
  id : String
  name : String
  shape : Shape
  behaviors : List Behavior
  scripts : List Script
  /-- A locked actor stands still. -/
  locked : Bool
  createdBy : String
  appearance : Appearance
  /-- The running threads by the ids of their scripts. -/
  threads : Std.ExtTreeMap String Thread

namespace Actor

def script? (actor : Actor) (id : String) : Option Script :=
  actor.scripts.find? (·.id = id)

/-- The roots at which a trigger starts the scripts, for each script that has one. -/
def entries (actor : Actor) (trigger : Trigger) : List (String × Handle) :=
  actor.scripts.filterMap fun s => (s.firstRoot? trigger.opcode).map (s.id, ·)

/-- Starts a thread for every script that a trigger runs, in place of the one it has. -/
def startThreads (actor : Actor) (trigger : Trigger) : Actor :=
  let started := (actor.entries trigger).foldl
    (fun threads (id, root) => threads.insert id (.start root)) actor.threads
  { actor with threads := started }

def stop (actor : Actor) : Actor := { actor with threads := ∅ }

def start (actor : Actor) : Logged Actor := do
  Logged.note (.started actor.id (actor.entries .start).length)
  return actor.stop.startThreads .start

/-- Starts over the scripts that run on a click, and tells how many. -/
def click (actor : Actor) : Logged (Actor × Nat) := do
  let count := (actor.entries .click).length
  Logged.note (.clicked actor.id count)
  return (actor.startThreads .click, count)

def runThread (now : Float) (actor : Actor) (entry : String × Thread) : Logged Actor :=
  match actor.script? entry.1 with
  | none => return actor
  | some s => do
    let advance ← entry.2.tick s actor.appearance now
    return { actor with
      appearance := advance.appearance
      threads := actor.threads.insert entry.1 advance.thread }

/-- One tick of every thread, in the order of the ids of their scripts. -/
def runThreads (actor : Actor) (now : Float) : Logged Actor :=
  actor.threads.toList.foldlM (runThread now) actor

def tick (actor : Actor) (now delta : Float) (playing : Bool) : Logged Actor :=
  if actor.locked then return actor
  else if playing then actor.runThreads now
  else return { actor with
    appearance := Behavior.previewAll actor.behaviors actor.appearance delta }

/-- Replaces the first script with an id by what an edit makes of it. -/
def editScript {α : Type} (actor : Actor) (id : String)
    (edit : Script → Logged (Script × Option α)) : Logged (Actor × Option α) :=
  match actor.script? id with
  | none => return (actor, none)
  | some s => do
    let (edited, a) ← edit s
    return ({ actor with
      scripts := actor.scripts.takeWhile (·.id ≠ id) ++
        edited :: (actor.scripts.dropWhile (·.id ≠ id)).tail }, a)

end Actor

end BlockScript
