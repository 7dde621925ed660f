import BlockScript.Appearance
import BlockScript.Easing

namespace BlockScript

inductive Tween
  | move (start target : Vec3)
  | rotate (start target : Vec3)
  | scale (start target : Float32)
deriving DecidableEq

namespace Tween

def apply (w : Tween) (part : Float32) (a : Appearance) : Appearance :=
  match w with
  | move start target => a.withPosition (Easing.lerpVec3 start target part)
  | rotate start target => a.withRotation (Easing.lerpVec3 start target part)
  | scale start target => a.withScale (.splat (Easing.lerp start target part))

def finish (w : Tween) (a : Appearance) : Appearance :=
  match w with
  | move _ target => a.withPosition target
  | rotate _ target => a.withRotation target
  | scale _ target => a.withScale (.splat target)

end Tween

structure Action where
  tween : Tween
  startTime : Float
  duration : Float
deriving DecidableEq

/-- The object at a time, and whether the change is over. -/
def Action.resume (action : Action) (a : Appearance) (now : Float) : Appearance × Bool :=
  let part := Easing.progress action.startTime action.duration now
  if 1 ≤ part then (action.tween.finish a, true)
  else (action.tween.apply (Easing.ease part) a, false)

end BlockScript
