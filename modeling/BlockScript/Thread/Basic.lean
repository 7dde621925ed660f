import BlockScript.Script.Basic
import BlockScript.Thread.Tween

namespace BlockScript

structure Frame where
  block : Handle
  /-- The number of its children that have had their turn. -/
  next : Nat
  /-- The number of rounds that a counted loop has completed. -/
  completed : Option UInt32
deriving DecidableEq

structure Thread where
  /-- The containers being run, the innermost in front. -/
  stack : List Frame
  wakeTime : Float
  action : Option Action
  active : Bool
deriving DecidableEq

namespace Thread

def start (root : Handle) : Thread := ⟨[⟨root, 0, none⟩], 0, none, true⟩

def depth (t : Thread) : Nat := t.stack.length

end Thread

end BlockScript
