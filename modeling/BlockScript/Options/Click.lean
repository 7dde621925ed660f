import BlockScript.Number.Literal
import BlockScript.Text.Quoted

namespace BlockScript

structure ScheduledClick where
  object : String
  time : Float

def splitLast? (c : Char) (cs : List Char) : Option (List Char × List Char) :=
  match cs.reverse.dropWhile (· ≠ c) with
  | [] => none
  | _ :: before => some (before.reverse, (cs.reverse.takeWhile (· ≠ c)).reverse)

namespace ScheduledClick

inductive Fault
  | noSeparator
  | noObject
  | badTime
deriving DecidableEq

def Fault.message (text : String) : Fault → String
  | noSeparator => "expected OBJECT@SECONDS, got " ++ Text.quote text
  | noObject => "missing object id in " ++ Text.quote text
  | badTime => "invalid time in " ++ Text.quote text

/-- The time of a click, which is finite and not below zero. -/
def time? (cs : List Char) : Option Float :=
  (Number.read? cs).filter fun x => x.isFinite && 0 ≤ x

/-- A click on the object before the last `@`, at the time behind it. -/
def parse (text : String) : Except Fault ScheduledClick :=
  match splitLast? '@' text.toList with
  | none => .error .noSeparator
  | some ([], _) => .error .noObject
  | some (object, time) => match time? time with
    | some time => .ok ⟨String.ofList object, time⟩
    | none => .error .badTime

end ScheduledClick

end BlockScript
