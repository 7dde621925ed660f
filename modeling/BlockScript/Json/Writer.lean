import BlockScript.Json.Basic
import BlockScript.Number.Layout

namespace BlockScript

def Numeral.text : Numeral → String
  | .integer n => toString n
  | .double x => if x.isFinite then Number.Layout.double.ofDouble x else "null"
  | .single x => if x.isFinite then Number.Layout.single.ofSingle x else "null"

namespace Json

def escaped (c : Char) : List Char :=
  match c with
  | '"' => ['\\', '"']
  | '\\' => ['\\', '\\']
  | '\x08' => ['\\', 'b']
  | '\x0c' => ['\\', 'f']
  | '\n' => ['\\', 'n']
  | '\r' => ['\\', 'r']
  | '\t' => ['\\', 't']
  | c =>
    if c < ' ' then
      ['\\', 'u', '0', '0', Nat.digitChar (c.toNat / 16), Nat.digitChar (c.toNat % 16)]
    else [c]

def quoted (s : String) : List Char :=
  '"' :: s.toList.flatMap escaped ++ ['"']

/-- Where the parts of a value stand: all on one line, or each on a line of its own, indented by two
spaces for every list and object around it. -/
inductive Spacing
  | line
  | lines (depth : Nat)

namespace Spacing

def deeper : Spacing → Spacing
  | line => line
  | lines depth => lines (depth + 1)

def lineBreak : Spacing → List Char
  | line => []
  | lines depth => '\n' :: List.replicate (2 * depth) ' '

def afterKey : Spacing → List Char
  | line => [':']
  | lines _ => [':', ' ']

end Spacing

mutual

def write (spacing : Spacing) : Json → List Char
  | .null => "null".toList
  | .bool b => (if b then "true" else "false").toList
  | .number n => n.text.toList
  | .text s => quoted s
  | .list [] => ['[', ']']
  | .list (item :: rest) =>
    '[' :: spacing.deeper.lineBreak ++ write spacing.deeper item ++
      writeItems spacing.deeper rest ++ spacing.lineBreak ++ [']']
  | .object [] => ['\x7b', '\x7d']
  | .object ((key, value) :: rest) =>
    '\x7b' :: spacing.deeper.lineBreak ++ quoted key ++ spacing.afterKey ++
      write spacing.deeper value ++ writeFields spacing.deeper rest ++ spacing.lineBreak ++ ['\x7d']

def writeItems (spacing : Spacing) : List Json → List Char
  | [] => []
  | item :: rest => ',' :: spacing.lineBreak ++ write spacing item ++ writeItems spacing rest

def writeFields (spacing : Spacing) : List (String × Json) → List Char
  | [] => []
  | (key, value) :: rest =>
    ',' :: spacing.lineBreak ++ quoted key ++ spacing.afterKey ++ write spacing value ++
      writeFields spacing rest

end

def compact (j : Json) : String :=
  String.ofList (j.write .line)

def pretty (j : Json) : String :=
  String.ofList (j.write (.lines 0))

end Json

end BlockScript
