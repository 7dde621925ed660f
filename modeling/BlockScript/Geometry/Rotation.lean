import BlockScript.Geometry.Vec3

namespace BlockScript

structure Rotation where
  x : Float32
  y : Float32
  z : Float32
  w : Float32

namespace Rotation

def aroundX (angle : Float32) : Rotation :=
  ⟨(angle * 0.5).sin, 0, 0, (angle * 0.5).cos⟩

def aroundY (angle : Float32) : Rotation :=
  ⟨0, (angle * 0.5).sin, 0, (angle * 0.5).cos⟩

def aroundZ (angle : Float32) : Rotation :=
  ⟨0, 0, (angle * 0.5).sin, (angle * 0.5).cos⟩

/-- The second rotation followed by the first. Single precision rounds after each operation, so that
their order is part of the definition. -/
instance : Mul Rotation where
  mul p q :=
    { x := (p.w * q.x + p.x * q.w) + (p.y * q.z - p.z * q.y)
      y := (p.w * q.y - p.x * q.z) + (p.y * q.w + p.z * q.x)
      z := (p.w * q.z + p.x * q.y) + (p.z * q.w - p.y * q.x)
      w := (p.w * q.w - p.x * q.x) + (-(p.y * q.y) - p.z * q.z) }

def axisPart (q : Rotation) : Vec3 := ⟨q.x, q.y, q.z⟩

def apply (q : Rotation) (v : Vec3) : Vec3 :=
  let b := q.axisPart
  v * (q.w * q.w - b.dot b) + b * (v.dot b * 2) + b.cross v * (q.w * 2)

end Rotation

end BlockScript
