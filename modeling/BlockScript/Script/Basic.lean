import BlockScript.Instruction.Basic
import Std.Data.ExtTreeMap

namespace BlockScript

structure Handle where
  index : Nat
  generation : UInt32
deriving DecidableEq

structure Block where
  key : String
  instruction : Instruction
  parent : Option Handle
  children : List Handle
deriving DecidableEq

/-- A slot and how often it has been vacated. It is used again after a block is removed, but a handle
finds a block only in the generation it was given in. -/
structure Slot where
  generation : UInt32
  block : Option Block
deriving DecidableEq

structure Script where
  id : String
  name : String
  roots : List Handle
  slots : Array Slot
  /-- The slots without a block, the one to be used next in front. -/
  vacant : List Nat
  keys : Std.ExtTreeMap String Handle

namespace Script

def empty (id name : String) : Script := ⟨id, name, [], #[], [], ∅⟩

def block? (s : Script) (h : Handle) : Option Block :=
  match s.slots[h.index]? with
  | some slot => if slot.generation = h.generation then slot.block else none
  | none => none

def instruction? (s : Script) (h : Handle) : Option Instruction :=
  (s.block? h).map (·.instruction)

/-- The blocks in a container, in the order in which they run. All other blocks show none. -/
def children (s : Script) (h : Handle) : List Handle :=
  match s.block? h with
  | some block => if block.instruction.isContainer then block.children else []
  | none => []

def find? (s : Script) (key : String) : Option Handle := s.keys[key]?

def size (s : Script) : Nat := s.keys.size

/-- The first root of a type. Later ones never run. -/
def firstRoot? (s : Script) (opcode : Opcode) : Option Handle :=
  s.roots.find? fun h => (s.instruction? h).bind Instruction.opcode? = some opcode

end Script

end BlockScript
