import BlockScript.Options.Click

namespace BlockScript

structure Options where
  world : String
  frames : UInt32
  frameRate : UInt32
  clicks : List ScheduledClick
  /-- Only ambient behaviors are shown, and no scripts run. -/
  preview : Bool
  /-- The run takes as long as the time it simulates. -/
  realtime : Bool
  /-- The file for the snapshot, which is printed if there is none. -/
  output : Option String

namespace Options

inductive Stop
  | help
  | version
  | unknownArgument
  | missingWorld
  | missingValue
  | repeated
  | valueForSwitch
  | badValue (message : String)
deriving DecidableEq

inductive IntegerFault
  | noDigits
  | badDigit
  | tooLarge
  | tooSmall

def IntegerFault.message : IntegerFault → String
  | noDigits => "cannot parse integer from empty string"
  | badDigit => "invalid digit found in string"
  | tooLarge => "number too large to fit in target type"
  | tooSmall => "number too small to fit in target type"

/-- The number that digits say, found from the left, so that the first fault counts. -/
def boundedDigits (limit : Nat) (beyond : IntegerFault) (n : Nat) :
    List Char → Except IntegerFault Nat
  | [] => .ok n
  | c :: cs =>
    if !c.isDigit then .error .badDigit
    else
      let m := 10 * n + (c.toNat - '0'.toNat)
      if limit < m then .error beyond else boundedDigits limit beyond m cs

def integer (text : String) : Except IntegerFault Int :=
  match text.toList with
  | [] => .error .noDigits
  | ['+'] | ['-'] => .error .badDigit
  | '-' :: digits => (boundedDigits (UInt64.size / 2) .tooSmall 0 digits).map fun n => -n
  | '+' :: digits => (boundedDigits (UInt64.size / 2 - 1) .tooLarge 0 digits).map Int.ofNat
  | digits => (boundedDigits (UInt64.size / 2 - 1) .tooLarge 0 digits).map Int.ofNat

def count (least : Nat) (text : String) : Except Stop UInt32 :=
  match integer text with
  | .error fault => .error (.badValue fault.message)
  | .ok n =>
    if least ≤ n && n < UInt32.size then .ok n.toNat.toUInt32
    else .error (.badValue (toString n ++ " is not in " ++ toString least ++ "..=4294967295"))

def path (text : String) : Except Stop String :=
  if text.isEmpty then .error .missingValue else .ok text

def click (text : String) : Except Stop ScheduledClick :=
  match ScheduledClick.parse text with
  | .ok click => .ok click
  | .error fault => .error (.badValue (fault.message text))

end Options

end BlockScript
