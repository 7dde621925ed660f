import BlockScript.Json.Value
import BlockScript.Text.Blank

namespace BlockScript

inductive Param
  | integer (n : Int64)
  | number (x : Float)
  | flag (b : Bool)
  | text (s : String)
  | other (j : Json)

abbrev Params := Std.ExtTreeMap String Param

namespace Param

def ofJson : Json → Param
  | .number (.integer n) =>
    if Int64.minValue.toInt ≤ n && n ≤ Int64.maxValue.toInt then .integer (Int64.ofInt n)
    else .number (Float.ofInt n)
  | .number (.double x) => .number x
  | .bool b => .flag b
  | .text s => .text s
  | j => .other j

def toJson : Param → Json
  | integer n => .number (.integer n.toInt)
  | number x => .number (.double x)
  | flag b => .bool b
  | text s => .text s
  | other j => j

def anyNumber? : Param → Option Float
  | integer n => some (Float.ofInt n.toInt)
  | number x => some x
  | text s => Number.read? (Text.trim s.toList)
  | flag _ | other _ => none

/-- The finite number that a parameter says. The editor stores a number as a number or as a text. -/
def number? (p : Param) : Option Float :=
  p.anyNumber?.filter Float.isFinite

def text? : Param → Option String
  | text s => some s
  | _ => none

end Param

namespace Json

mutual

def description : Json → String
  | .null => "Null"
  | .bool b => "Bool(" ++ (if b then "true" else "false") ++ ")"
  | .number (.integer n) => "Number(" ++ toString n ++ ")"
  | .number (.double x) => "Number(" ++ Number.Layout.double.ofDouble x ++ ")"
  | .number (.single x) => "Number(" ++ Number.Layout.single.ofSingle x ++ ")"
  | .text s => "String(" ++ Text.quote s ++ ")"
  | .list items => "Array [" ++ String.intercalate ", " (itemDescriptions items) ++ "]"
  | .object fields =>
    "Object \x7b" ++ String.intercalate ", " (fieldDescriptions fields) ++ "\x7d"

def itemDescriptions : List Json → List String
  | [] => []
  | item :: rest => description item :: itemDescriptions rest

def fieldDescriptions : List (String × Json) → List String
  | [] => []
  | (key, value) :: rest => (Text.quote key ++ ": " ++ description value) :: fieldDescriptions rest

end

end Json

def Param.description : Param → String
  | integer n => "Integer(" ++ toString n.toInt ++ ")"
  | number x => "Float(" ++ Number.Layout.message.ofDouble x ++ ")"
  | flag b => "Bool(" ++ (if b then "true" else "false") ++ ")"
  | text s => "String(" ++ Text.quote s ++ ")"
  | other j => "Other(" ++ j.description ++ ")"

namespace Json.Reader

def param : Reader Param :=
  return Param.ofJson (← value)

/-- Parameters by name, the last value of a name being the one that counts. -/
def params : Reader Params :=
  return .ofList (← table param) compare

end Json.Reader

end BlockScript
