import BlockScript.Number.Binary
import BlockScript.Geometry.Vec3

namespace BlockScript.Easing

def clamp (t : Float32) : Float32 :=
  if t < 0 then 0 else if 1 < t then 1 else t

/-- The square that starts at rest, up to the middle; from there the same turned around. -/
def ease (t : Float32) : Float32 :=
  let t := clamp t
  if t < 0.5 then 2 * t * t
  else
    let back := -2 * t + 2
    1 - back * back / 2

def lerp (a b t : Float32) : Float32 :=
  a + (b - a) * t

def lerpVec3 (a b : Vec3) (t : Float32) : Vec3 :=
  a + (b - a) * t

def progress (start duration now : Float) : Float32 :=
  let t := (now - start) / duration
  Number.single (if t < 0 then 0 else if 1 < t then 1 else t)

end BlockScript.Easing
