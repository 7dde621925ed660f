import BlockScript.Json.Skip
import BlockScript.Json.Typed

namespace BlockScript.Json

/-- A field of a record whose drafts have type `δ`. -/
structure Field (δ : Type) where
  name : String
  isGiven : δ → Bool
  read : δ → Reader δ
  /-- A list of the fields may end in front of this one. -/
  mayEndBefore : Bool

def Field.of {δ α : Type} (name : String) (get : δ → Option α) (put : δ → Option α → δ)
    (reader : Reader α) (mayEndBefore : Bool) : Field δ where
  name := name
  isGiven draft := (get draft).isSome
  read draft := return put draft (some (← reader))
  mayEndBefore := mayEndBefore

structure Record (δ α : Type) where
  title : String
  fields : List (Field δ)
  empty : δ
  finish : δ → Except Fault α

namespace Record

variable {δ α : Type}

/-- One field of an object, behind the opening quote of its key. Unknown fields are skipped. -/
def readField (r : Record δ α) (draft : δ) : Reader δ := do
  let key ← Reader.text
  match r.fields.find? (·.name = key) with
  | some field =>
    if field.isGiven draft then throw (.repeatedField key)
    Reader.colon
    field.read draft
  | none =>
    Reader.colon
    Reader.skip
    return draft

def readInOrder (r : Record δ α) : List (Field δ) → Nat → δ → Reader δ
  | [], _, draft => return draft
  | field :: rest, index, draft => do
    if ← Reader.moreItems (index = 0) then
      r.readInOrder rest (index + 1) (← field.read draft)
    else if field.mayEndBefore then r.readInOrder rest (index + 1) draft
    else throw (.wrongLength index (r.title ++ " with " ++ toString r.fields.length ++ " elements"))

def read (r : Record δ α) : Reader α :=
  .typed r.title fun
    | '\x7b' => some (.nested do
      Reader.advance
      r.finish (← Reader.fields r.readField r.empty))
    | '[' => some (.nested do
      Reader.advance
      let a ← r.finish (← r.readInOrder r.fields 0 r.empty)
      Reader.closeList
      return a)
    | _ => none

end Record

def required {α : Type} (name : String) (value : Option α) : Except Fault α :=
  match value with
  | some a => .ok a
  | none => .error (.missingField name)

end BlockScript.Json
