import BlockScript.Instruction.Basic
import BlockScript.Log

namespace BlockScript.Instruction

/-- How often a body runs for an authored count: at least once, and a fraction counts as a full
round. -/
def rounds (count : Float) : UInt32 :=
  if count < 1 then 1 else UInt32.ofNat (min (Number.ceil count) (UInt32.size - 1))

def seconds? (value : Param) : Option Float :=
  value.number?.map fun x => if x < 0 then 0 else x

def amount? (value : Param) : Option Float32 :=
  value.number?.map Number.single

def axis? (value : Param) : Option Axis :=
  value.text?.bind Axis.parse?

/-- The instruction with one parameter replaced, if it has that parameter and the value fits. -/
def set? (i : Instruction) (name : String) (value : Param) : Option Instruction :=
  match i, name with
  | loop _, "times" => value.number?.map fun count => loop (rounds count)
  | wait _, "duration" => (seconds? value).map wait
  | move _ distance duration, "axis" => (axis? value).map (move · distance duration)
  | move axis _ duration, "distance" => (amount? value).map (move axis · duration)
  | move axis distance _, "duration" => (seconds? value).map (move axis distance)
  | rotate _ angle duration, "axis" => (axis? value).map (rotate · angle duration)
  | rotate axis _ duration, "angle" => (amount? value).map (rotate axis · duration)
  | rotate axis angle _, "duration" => (seconds? value).map (rotate axis angle)
  | scale _ duration, "scale" => (amount? value).map (scale · duration)
  | scale factor _, "duration" => (seconds? value).map (scale factor)
  | paint _, "color" => (value.text?.bind Color.parse?).map paint
  | _, _ => none

def setOrNote (i : Instruction) (entry : String × Param) : Logged Instruction :=
  match i.set? entry.1 entry.2 with
  | some i => return i
  | none => do
    Logged.note (.ignoredParameter entry.1 entry.2 i.typeName)
    return i

def configureAll (i : Instruction) (entries : List (String × Param)) : Logged Instruction :=
  entries.foldlM setOrNote i

def configure (i : Instruction) (ps : Params) : Logged Instruction :=
  i.configureAll ps.toList

def ofParams (opcode : Opcode) (ps : Params) : Logged Instruction :=
  (fallback opcode).configure ps

end BlockScript.Instruction
