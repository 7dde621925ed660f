import BlockScript.World.Authored
import BlockScript.World.Basic

namespace BlockScript

namespace Script

def authoredInstruction (s : Script) (block : Authored.Block) : Logged Instruction :=
  match Opcode.ofName? block.type with
  | some opcode => Instruction.ofParams opcode block.params
  | none => do
    Logged.note (.unsupportedBlock s.id block.id block.type)
    return .unsupported block.type

mutual

/-- Adds an authored block under a parent, and then those below it. -/
def plant (parent : Option Handle) (s : Script) : Authored.Block → Logged Script
  | ⟨id, type, params, children⟩ => do
    let instruction ← s.authoredInstruction ⟨id, type, params, children⟩
    match s.insert id instruction parent with
    | (s, some h) => plantAll (some h) s children
    | (s, none) =>
      Logged.note (.duplicateBlock s.id id)
      return s

def plantAll (parent : Option Handle) (s : Script) : List Authored.Block → Logged Script
  | [] => return s
  | block :: rest => do plantAll parent (← plant parent s block) rest

end

def ofAuthored (s : Authored.Script) : Logged Script :=
  plantAll none (empty s.id s.name) s.blocks

end Script

def Behavior.ofAuthored? (object : String) (b : Authored.Behavior) : Logged (Option Behavior) :=
  match Ambience.ofParams? b.type b.params with
  | some ambience => return some ⟨b.id, ambience, b.description⟩
  | none => do
    Logged.note (.unknownBehavior object b.type)
    return none

def Actor.ofAuthored (o : Authored.Object) : Logged Actor := do
  let behaviors ← o.behaviors.mapM (Behavior.ofAuthored? o.id)
  let scripts ← o.scripts.mapM Script.ofAuthored
  return {
    id := o.id
    name := o.name
    shape := o.shape
    behaviors := behaviors.filterMap fun behavior => behavior
    scripts := scripts
    locked := o.locked
    createdBy := o.createdBy
    appearance := ⟨⟨o.position, o.rotation, o.scale⟩, Color.parseD o.color .white⟩
    threads := ∅ }

namespace World

def ofAuthored (w : Authored.World) : Logged World := do
  ofActors (← w.objects.mapM Actor.ofAuthored) (Color.parseD w.environment .white)

def parse (text : String) : Except Json.Fault (Logged World) :=
  (Authored.World.read text).map ofAuthored

end World

end BlockScript
