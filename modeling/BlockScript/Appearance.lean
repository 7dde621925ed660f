import BlockScript.Color
import BlockScript.Geometry.Transform

namespace BlockScript

structure Appearance where
  transform : Transform
  color : Color
deriving DecidableEq

namespace Appearance

def default : Appearance := ⟨.identity, .white⟩

def withPosition (a : Appearance) (position : Vec3) : Appearance :=
  { a with transform := { a.transform with position } }

def withRotation (a : Appearance) (rotation : Vec3) : Appearance :=
  { a with transform := { a.transform with rotation } }

def withScale (a : Appearance) (scale : Vec3) : Appearance :=
  { a with transform := { a.transform with scale } }

end Appearance

end BlockScript
