import BlockScript.Text.Blank
import BlockScript.Geometry.Vec3

namespace BlockScript

inductive Axis
  | x
  | y
  | z
deriving DecidableEq

namespace Axis

def parse? (text : String) : Option Axis :=
  match Text.trim text.toList with
  | ['x'] | ['X'] => some .x
  | ['y'] | ['Y'] => some .y
  | ['z'] | ['Z'] => some .z
  | _ => none

def unit : Axis → Vec3
  | .x => ⟨1, 0, 0⟩
  | .y => ⟨0, 1, 0⟩
  | .z => ⟨0, 0, 1⟩

def name : Axis → String
  | .x => "x"
  | .y => "y"
  | .z => "z"

end Axis

end BlockScript
