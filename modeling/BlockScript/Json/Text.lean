import BlockScript.Json.Reader

namespace BlockScript.Json.Reader

def hexDigit? (c : Char) : Option Nat :=
  if '0' ≤ c && c ≤ '9' then some (c.toNat - '0'.toNat)
  else if 'a' ≤ c && c ≤ 'f' then some (c.toNat - 'a'.toNat + 10)
  else if 'A' ≤ c && c ≤ 'F' then some (c.toNat - 'A'.toNat + 10)
  else none

/-- A number of four hexadecimal places. With fewer than four bytes left the text is cut off. -/
def unit : Reader Nat := do
  let cs := (← get).take 4
  match cs.mapM hexDigit? with
  | some [a, b, c, d] =>
    modify (List.drop 4)
    return ((a * 16 + b) * 16 + c) * 16 + d
  | _ => throw (if (String.ofList cs).utf8ByteSize < 4 then .cutText else .badEscape)

def isLeading (n : Nat) : Bool := 0xd800 ≤ n && n < 0xdc00

def isTrailing (n : Nat) : Bool := 0xdc00 ≤ n && n < 0xe000

def pairing (c : Char) : Reader Unit := do
  match ← next with
  | none => throw .cutText
  | some d => if d = c then return else throw .cutEscape

def numbered : Reader Char := do
  let first ← unit
  if isTrailing first then throw .loneSurrogate
  else if isLeading first then
    pairing '\\'
    pairing 'u'
    let second ← unit
    if isTrailing second then
      return Char.ofNat (0x10000 + (first - 0xd800) * 0x400 + (second - 0xdc00))
    else throw .loneSurrogate
  else return Char.ofNat first

def lettered? : Char → Option Char
  | '"' => some '"'
  | '\\' => some '\\'
  | '/' => some '/'
  | 'b' => some '\x08'
  | 'f' => some '\x0c'
  | 'n' => some '\n'
  | 'r' => some '\r'
  | 't' => some '\t'
  | _ => none

/-- What follows a backslash; `number` reads what follows the letter for a number. -/
def escape (number : Reader Char) : Reader Char := do
  match ← next with
  | none => throw .cutText
  | some 'u' => number
  | some c => match lettered? c with
    | some d => return d
    | none => throw .badEscape

def characters (number : Reader Char) : Reader (List Char) :=
  iterate (fun read => do
    match ← next with
    | none => throw .cutText
    | some '"' => return .inr read.reverse
    | some '\\' => return .inl ((← escape number) :: read)
    | some c => if c < ' ' then throw .controlCharacter else return .inl (c :: read)) []

def text : Reader String :=
  return String.ofList (← characters numbered)

/-- A text that is not needed, in which numbers may name half a pair. -/
def skipText : Reader Unit := do
  let _ ← characters (return Char.ofNat (← unit))

end BlockScript.Json.Reader
