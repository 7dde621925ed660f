import BlockScript.Options.Basic
import BlockScript.World.Basic

namespace BlockScript

/-- A number that orders doubles from the least to the greatest, with `-0` below `0`. -/
def Number.rank (x : Float) : Int :=
  let half := UInt64.size / 2
  let bits := x.toBits.toNat
  if bits < half then bits else -(bits - half + 1 : Nat)

/-- A world with the clicks that are still to come, the earliest in front. -/
structure Session where
  world : World
  clicks : List ScheduledClick

namespace Session

/-- Clicks by their time; those of the same time keep their order. -/
def inOrder (clicks : List ScheduledClick) : List ScheduledClick :=
  clicks.mergeSort fun a b => Number.rank a.time ≤ Number.rank b.time

def start (options : Options) (w : World) : Logged Session := do
  return ⟨← w.setPlaying (!options.preview), inOrder options.clicks⟩

def deliver (now : Float) (w : World) (click : ScheduledClick) : Logged World := do
  let (w, taken) ← w.click click.object
  if !taken then Logged.note (.ignoredClick click.object now)
  return w

def frame (delta : Float) (s : Session) (n : Nat) : Logged Session := do
  let now := Float.ofNat n * delta
  let w ← (s.clicks.takeWhile (·.time ≤ now)).foldlM (deliver now) s.world
  return ⟨← w.tick now delta, s.clicks.dropWhile (·.time ≤ now)⟩

def frames (delta : Float) : Nat → Nat → Session → Logged Session
  | 0, _, s => return s
  | count + 1, n, s => do frames delta count (n + 1) (← s.frame delta n)

def delta (options : Options) : Float := 1 / options.frameRate.toFloat

def run (options : Options) (w : World) : Logged World := do
  return (← frames (delta options) options.frames.toNat 0 (← start options w)).world

end Session

end BlockScript
