import BlockScript.Json.Text
import BlockScript.Json.Numeral

namespace BlockScript.Json.Reader

variable {α : Type}

/-- What stands here: a scalar in full, of a list or an object only its kind. -/
def found : Reader Found := do
  match ← look with
  | some 'n' => do word "null".toList; return .null
  | some 't' => do word "true".toList; return .bool true
  | some 'f' => do word "false".toList; return .bool false
  | some '"' => do advance; return .text (← text)
  | some '[' => return .list
  | some '\x7b' => return .object
  | some c =>
    if c = '-' || c.isDigit then
      match ← numeral with
      | .integer n => return .integer n
      | .double x => return .double x
      | .single _ => throw .expectedValue
    else throw .expectedValue
  | none => throw .cutValue

def typed (expected : String) (accept : Char → Option (Reader α)) : Reader α := do
  match ← peek with
  | none => throw .cutValue
  | some c => match accept c with
    | some reader => reader
    | none => throw (.wrongType (← found) expected)

def string : Reader String :=
  typed "a string" fun
    | '"' => some do advance; text
    | _ => none

def boolean : Reader Bool :=
  typed "a boolean" fun
    | 't' => some do word "true".toList; return true
    | 'f' => some do word "false".toList; return false
    | _ => none

def single : Reader Float32 :=
  typed "f32" fun c =>
    if c = '-' || c.isDigit then some do
      match ← numeral with
      | .integer n => return Float32.ofInt n
      | .double x => return Number.single x
      | .single x => return x
    else none

def list (item : Reader α) : Reader (List α) :=
  typed "a sequence" fun
    | '[' => some (nested do advance; items item)
    | _ => none

/-- An object with any keys, the last value of a key being the one that counts. -/
def table (value : Reader α) : Reader (List (String × α)) :=
  typed "a map" fun
    | '\x7b' => some (nested do
      advance
      let read ← fields (fun read => do
        let key ← text
        colon
        return (key, ← value) :: read) []
      return read.reverse)
    | _ => none

def optional (reader : Reader α) : Reader (Option α) := do
  match ← peek with
  | some 'n' => do word "null".toList; return none
  | _ => return some (← reader)

def variantOf (names : List (String × α)) (name : String) : Reader α :=
  match names.lookup name with
  | some a => return a
  | none => throw (.unknownVariant name (names.map Prod.fst))

def variantKey : Reader String := do
  match ← peek with
  | none => throw .cutObject
  | some '"' =>
    advance
    text
  | some '\x7d' => throw .expectedValue
  | some _ => throw .keyNotText

/-- One of several names, or an object with that name as its only key and `null` as its value. -/
def variant (names : List (String × α)) : Reader α := do
  match ← peek with
  | none => throw .cutValue
  | some '"' =>
    advance
    variantOf names (← text)
  | some '\x7b' =>
    let a ← nested do
      advance
      let a ← variantOf names (← variantKey)
      colon
      typed "unit" fun
        | 'n' => some (word "null".toList)
        | _ => none
      return a
    match ← peek with
    | none => throw .cutObject
    | some '\x7d' => do advance; return a
    | some _ => throw .expectedValue
  | some _ => throw .expectedValue

end BlockScript.Json.Reader
