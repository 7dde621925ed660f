import BlockScript.Geometry.Rotation

namespace BlockScript

structure Transform where
  position : Vec3
  /-- Angles in radians about the three axes. -/
  rotation : Vec3
  scale : Vec3
deriving DecidableEq

namespace Transform

def identity : Transform := ⟨.zero, .zero, .splat 1⟩

/-- The turns about the three axes as one rotation, of which the one about `z` comes first. -/
def orientation (t : Transform) : Rotation :=
  .aroundX t.rotation.x * .aroundY t.rotation.y * .aroundZ t.rotation.z

/-- A displacement along the object's own axes, along those of the world. -/
def localOffset (t : Transform) (displacement : Vec3) : Vec3 :=
  t.orientation.apply displacement

end Transform

def radians (degrees : Float32) : Float32 :=
  degrees * Float32.ofBits 0x3c8efa35

end BlockScript
