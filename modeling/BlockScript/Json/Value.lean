import BlockScript.Json.Typed
import Std.Data.ExtTreeMap

namespace BlockScript.Json.Reader

/-- The fields in the order of their keys, each key with the last of its values. -/
def lastOfEach (fields : List (String × Json)) : List (String × Json) :=
  (Std.ExtTreeMap.ofList fields compare).toList

def valueWithin : Nat → Reader Json
  | 0 => throw .tooDeep
  | depth + 1 => do
    match ← peek with
    | some '[' => return .list (← list (valueWithin depth))
    | some '\x7b' => return .object (lastOfEach (← table (valueWithin depth)))
    | some c =>
      if c = '-' || c.isDigit then return .number (← numeral)
      else match ← found with
        | .null => return .null
        | .bool b => return .bool b
        | .text s => return .text s
        | _ => throw .expectedValue
    | none => throw .cutValue

/-- A value. Each level of it is one list or object that `nested` has to allow. -/
def value : Reader Json := do
  valueWithin ((← read) + 1)

end BlockScript.Json.Reader
