import BlockScript.Color
import BlockScript.Geometry.Axis
import BlockScript.Instruction.Opcode

namespace BlockScript

inductive Instruction
  | onStart
  | onClick
  | forever
  | loop (times : UInt32)
  | wait (duration : Float)
  | branch
  | move (axis : Axis) (distance : Float32) (duration : Float)
  /-- A turn by an angle in degrees. -/
  | rotate (axis : Axis) (angle : Float32) (duration : Float)
  | scale (factor : Float32) (duration : Float)
  | paint (color : Color)
  /-- A block of a type that cannot be authored. -/
  | unsupported (type : String)
deriving DecidableEq

namespace Instruction

/-- The instruction that stands for what an authored block leaves out. -/
def fallback : Opcode → Instruction
  | .onStart => onStart
  | .onClick => onClick
  | .forever => forever
  | .loop => loop 1
  | .wait => wait 0
  | .branch => branch
  | .move => move .z 1 0
  | .rotate => rotate .y 1 0
  | .scale => scale 1 0
  | .paint => paint .white

def authoringDefault : Opcode → Instruction
  | .loop => loop 5
  | .wait => wait 1
  | .move => move .z 1 1
  | .rotate => rotate .y 90 1
  | .scale => scale 1.5 0.5
  | .paint => paint ⟨255, 0, 0⟩
  | opcode => fallback opcode

def opcode? : Instruction → Option Opcode
  | onStart => some .onStart
  | onClick => some .onClick
  | forever => some .forever
  | loop _ => some .loop
  | wait _ => some .wait
  | branch => some .branch
  | move .. => some .move
  | rotate .. => some .rotate
  | scale .. => some .scale
  | paint _ => some .paint
  | unsupported _ => none

def typeName : Instruction → String
  | unsupported type => type
  | i => (i.opcode?.map Opcode.name).getD ""

/-- Only containers run or show what is stored under them. -/
def isContainer : Instruction → Bool
  | onStart | onClick | forever | loop _ | branch => true
  | _ => false

end Instruction

end BlockScript
