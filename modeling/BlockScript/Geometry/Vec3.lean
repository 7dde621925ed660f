namespace BlockScript

structure Vec3 where
  x : Float32
  y : Float32
  z : Float32
deriving DecidableEq

namespace Vec3

def zero : Vec3 := ⟨0, 0, 0⟩

def splat (a : Float32) : Vec3 := ⟨a, a, a⟩

instance : Add Vec3 := ⟨fun u v => ⟨u.x + v.x, u.y + v.y, u.z + v.z⟩⟩

instance : Sub Vec3 := ⟨fun u v => ⟨u.x - v.x, u.y - v.y, u.z - v.z⟩⟩

instance : HMul Vec3 Float32 Vec3 := ⟨fun v a => ⟨v.x * a, v.y * a, v.z * a⟩⟩

def dot (u v : Vec3) : Float32 :=
  u.x * v.x + u.y * v.y + u.z * v.z

def cross (u v : Vec3) : Vec3 :=
  ⟨u.y * v.z - v.y * u.z, u.z * v.x - v.z * u.x, u.x * v.y - v.x * u.y⟩

end Vec3

end BlockScript
