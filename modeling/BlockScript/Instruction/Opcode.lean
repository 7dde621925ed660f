namespace BlockScript

inductive Opcode
  | onStart
  | onClick
  | forever
  | loop
  | wait
  | branch
  | move
  | rotate
  | scale
  | paint
deriving DecidableEq

namespace Opcode

def all : List Opcode :=
  [onStart, onClick, forever, loop, wait, branch, move, rotate, scale, paint]

def name : Opcode → String
  | onStart => "EVENT_START"
  | onClick => "EVENT_ON_CLICK"
  | forever => "CONTROL_FOREVER"
  | loop => "CONTROL_REPEAT"
  | wait => "CONTROL_WAIT"
  | branch => "CONTROL_IF"
  | move => "ACTION_MOVE"
  | rotate => "ACTION_ROTATE"
  | scale => "ACTION_SCALE"
  | paint => "ACTION_COLOR"

def ofName? (name : String) : Option Opcode :=
  all.find? (·.name = name)

end Opcode

inductive Trigger
  | start
  | click
deriving DecidableEq

def Trigger.opcode : Trigger → Opcode
  | .start => .onStart
  | .click => .onClick

end BlockScript
