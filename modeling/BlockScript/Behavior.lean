import BlockScript.Appearance
import BlockScript.Geometry.Axis
import BlockScript.Param

namespace BlockScript

inductive Ambience
  /-- A steady turn about an axis, by a speed in radians per second. -/
  | spin (speed : Float32) (axis : Axis)
  | bounce (ps : Params)
  | float (ps : Params)
  | hover (ps : Params)

structure Behavior where
  id : String
  ambience : Ambience
  description : Option String

namespace Ambience

def ofParams? (type : String) (ps : Params) : Option Ambience :=
  match type with
  | "SPIN" =>
    let speed := (ps["speed"]?.bind Param.number?).getD 1
    let axis := ((ps["axis"]?.bind Param.text?).bind Axis.parse?).getD .y
    some (spin (Number.single speed) axis)
  | "BOUNCE" => some (bounce ps)
  | "FLOAT" => some (float ps)
  | "HOVER" => some (hover ps)
  | _ => none

def preview (ambience : Ambience) (a : Appearance) (delta : Float) : Appearance :=
  match ambience with
  | spin speed axis =>
    a.withRotation (a.transform.rotation + axis.unit * speed * Number.single delta)
  | _ => a

end Ambience

def Behavior.previewAll (behaviors : List Behavior) (a : Appearance) (delta : Float) :
    Appearance :=
  behaviors.foldl (fun a behavior => behavior.ambience.preview a delta) a

end BlockScript
