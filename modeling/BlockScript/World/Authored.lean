import BlockScript.Actor
import BlockScript.Json.Record

namespace BlockScript

namespace Authored

structure Block where
  id : String
  type : String
  params : Params
  children : List Block

structure Script where
  id : String
  name : String
  blocks : List Block

structure Behavior where
  id : String
  type : String
  params : Params
  description : Option String

structure Object where
  id : String
  name : String
  shape : Shape
  position : Vec3
  rotation : Vec3
  scale : Vec3
  color : String
  behaviors : List Behavior
  scripts : List Script
  locked : Bool
  createdBy : String

structure World where
  objects : List Object
  environment : String

open Json Json.Reader

def vec3 : Reader Vec3 :=
  typed "struct Vec3" fun
    | '[' => some do
      let v ← nested do
        advance
        return ⟨← component 0, ← component 1, ← component 2⟩
      closeList
      return v
    | _ => none
where
  component (index : Nat) : Reader Float32 := do
    if ← moreItems (index = 0) then single else throw (.wrongLength index "struct Vec3")

def shapeNames : List (String × Shape) := Shape.all.map fun shape => (shape.name, shape)

structure Block.Draft where
  id : Option String
  type : Option String
  params : Option Params
  children : Option (Option (List Block))

def Block.Draft.empty : Draft := ⟨none, none, none, none⟩

def Block.record (children : Reader (List Block)) : Record Block.Draft Block where
  title := "struct Block"
  fields :=
    [.of "id" (·.id) ({ · with id := · }) string false,
      .of "type" (·.type) ({ · with type := · }) string false,
      .of "parameters" (·.params) ({ · with params := · }) Reader.params true,
      .of "children" (·.children) ({ · with children := · }) (optional children) true]
  empty := .empty
  finish draft := do
    return {
      id := ← required "id" draft.id
      type := ← required "type" draft.type
      params := draft.params.getD ∅
      children := draft.children.join.getD [] }

def blocksWithin : Nat → Reader (List Block)
  | 0 => throw .tooDeep
  | depth + 1 => list (Block.record (blocksWithin depth)).read

/-- A list of blocks. Each block in it is an object that `nested` has to allow. -/
def blocks : Reader (List Block) := do
  blocksWithin ((← read) + 1)

structure Script.Draft where
  id : Option String
  name : Option String
  blocks : Option (List Block)

def Script.record : Record Script.Draft Script where
  title := "struct Script"
  fields :=
    [.of "id" (·.id) ({ · with id := · }) string false,
      .of "name" (·.name) ({ · with name := · }) string true,
      .of "blocks" (·.blocks) ({ · with blocks := · }) Authored.blocks true]
  empty := ⟨none, none, none⟩
  finish draft := do
    return {
      id := ← required "id" draft.id
      name := draft.name.getD ""
      blocks := draft.blocks.getD [] }

structure Behavior.Draft where
  id : Option String
  type : Option String
  params : Option Params
  description : Option (Option String)

def Behavior.record : Record Behavior.Draft Behavior where
  title := "struct Behavior"
  fields :=
    [.of "id" (·.id) ({ · with id := · }) string false,
      .of "type" (·.type) ({ · with type := · }) string false,
      .of "parameters" (·.params) ({ · with params := · }) Reader.params true,
      .of "description" (·.description) ({ · with description := · }) (optional string) false]
  empty := ⟨none, none, none, none⟩
  finish draft := do
    return {
      id := ← required "id" draft.id
      type := ← required "type" draft.type
      params := draft.params.getD ∅
      description := draft.description.join }

structure Object.Draft where
  id : Option String
  name : Option String
  shape : Option Shape
  position : Option Vec3
  rotation : Option Vec3
  scale : Option Vec3
  color : Option String
  behaviors : Option (List Behavior)
  scripts : Option (List Script)
  locked : Option Bool
  createdBy : Option String

def Object.record : Record Object.Draft Object where
  title := "struct Object"
  fields :=
    [.of "id" (·.id) ({ · with id := · }) string false,
      .of "name" (·.name) ({ · with name := · }) string true,
      .of "type" (·.shape) ({ · with shape := · }) (variant shapeNames) true,
      .of "position" (·.position) ({ · with position := · }) vec3 true,
      .of "rotation" (·.rotation) ({ · with rotation := · }) vec3 true,
      .of "scale" (·.scale) ({ · with scale := · }) vec3 true,
      .of "color" (·.color) ({ · with color := · }) string true,
      .of "behaviors" (·.behaviors) ({ · with behaviors := · }) (list Behavior.record.read) true,
      .of "scripts" (·.scripts) ({ · with scripts := · }) (list Script.record.read) true,
      .of "locked" (·.locked) ({ · with locked := · }) boolean true,
      .of "createdBy" (·.createdBy) ({ · with createdBy := · }) string true]
  empty := ⟨none, none, none, none, none, none, none, none, none, none, none⟩
  finish draft := do
    return {
      id := ← required "id" draft.id
      name := draft.name.getD ""
      shape := draft.shape.getD .cube
      position := draft.position.getD .zero
      rotation := draft.rotation.getD .zero
      scale := draft.scale.getD (.splat 1)
      color := draft.color.getD "#ffffff"
      behaviors := draft.behaviors.getD []
      scripts := draft.scripts.getD []
      locked := draft.locked.getD false
      createdBy := draft.createdBy.getD "" }

structure World.Draft where
  objects : Option (List Object)
  environment : Option String

def World.record : Record World.Draft World where
  title := "struct WorldFile"
  fields :=
    [.of "objects" (·.objects) ({ · with objects := · }) (list Object.record.read) true,
      .of "environmentColor" (·.environment) ({ · with environment := · }) string true]
  empty := ⟨none, none⟩
  finish draft := .ok
    { objects := draft.objects.getD []
      environment := draft.environment.getD "#f3f4f6" }

def World.read (text : String) : Except Fault World :=
  World.record.read.run text

end Authored

end BlockScript
