import BlockScript.Json.Text
import BlockScript.Json.Numeral

namespace BlockScript.Json.Reader

def skipItems (item : Reader Unit) : Reader Unit :=
  iterate (fun first => do
    match ← peek with
    | none => throw .cutList
    | some ']' =>
      advance
      return .inr ()
    | some c =>
      if !first then
        if c = ',' then advance else throw .expectedListEnd
      item
      return .inl false) true

def skipKey : Reader Unit := do
  match ← peek with
  | none => throw .cutObject
  | some '"' =>
    advance
    skipText
    colon
  | some _ => throw .keyNotText

def skipFields (value : Reader Unit) : Reader Unit :=
  iterate (fun first => do
    match ← peek with
    | none => throw .cutObject
    | some '\x7d' =>
      advance
      return .inr ()
    | some c =>
      if !first then
        if c = ',' then advance else throw .expectedObjectEnd
      skipKey
      value
      return .inl false) true

def skipAround (inner : Reader Unit) : Reader Unit := do
  match ← peek with
  | none => throw .cutValue
  | some 'n' => word "null".toList
  | some 't' => word "true".toList
  | some 'f' => word "false".toList
  | some '"' =>
    advance
    skipText
  | some '[' =>
    advance
    skipItems inner
  | some '\x7b' =>
    advance
    skipFields inner
  | some c => if c = '-' || c.isDigit then skipNumeral else throw .expectedValue

def skipWithin : List Char → Reader Unit
  | [] => throw .cutValue
  | _ :: bound => skipAround (skipWithin bound)

/-- One value. It cannot be nested deeper than it has characters. -/
def skip : Reader Unit := do
  skipWithin (← get)

end BlockScript.Json.Reader
