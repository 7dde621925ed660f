import BlockScript.Text.Blank

namespace BlockScript

structure Color where
  red : UInt8
  green : UInt8
  blue : UInt8
deriving DecidableEq

namespace Color

def white : Color := ⟨255, 255, 255⟩

def named : List (String × Color) :=
  [("black", ⟨0, 0, 0⟩), ("white", ⟨255, 255, 255⟩), ("red", ⟨255, 0, 0⟩), ("lime", ⟨0, 255, 0⟩),
    ("green", ⟨0, 128, 0⟩), ("blue", ⟨0, 0, 255⟩), ("yellow", ⟨255, 255, 0⟩),
    ("cyan", ⟨0, 255, 255⟩), ("magenta", ⟨255, 0, 255⟩), ("orange", ⟨255, 165, 0⟩),
    ("purple", ⟨128, 0, 128⟩), ("gray", ⟨128, 128, 128⟩), ("grey", ⟨128, 128, 128⟩)]

def hexDigit? (c : Char) : Option UInt8 :=
  if '0' ≤ c && c ≤ '9' then some (c.toNat - '0'.toNat).toUInt8
  else if 'a' ≤ c && c ≤ 'f' then some (c.toNat - 'a'.toNat + 10).toUInt8
  else if 'A' ≤ c && c ≤ 'F' then some (c.toNat - 'A'.toNat + 10).toUInt8
  else none

/-- A channel of one place, which stands for two of the same digit. -/
def shortChannel? (c : Char) : Option UInt8 :=
  (hexDigit? c).map (17 * ·)

/-- A channel of two places, the first of which may be a plus sign. -/
def longChannel? (c d : Char) : Option UInt8 :=
  if c = '+' then hexDigit? d else return 16 * (← hexDigit? c) + (← hexDigit? d)

def parse? (text : String) : Option Color :=
  match Text.trim text.toList with
  | '#' :: [r, g, b] => return ⟨← shortChannel? r, ← shortChannel? g, ← shortChannel? b⟩
  | '#' :: [r, r', g, g', b, b'] =>
    return ⟨← longChannel? r r', ← longChannel? g g', ← longChannel? b b'⟩
  | '#' :: _ => none
  | name => named.lookup (String.ofList (name.map Char.toLower))

def parseD (text : String) (fallback : Color) : Color :=
  (parse? text).getD fallback

def hexChar (n : UInt8) : Char :=
  Nat.digitChar n.toNat

def hexPair (n : UInt8) : List Char :=
  [hexChar (n / 16), hexChar (n % 16)]

def text (c : Color) : String :=
  String.ofList ('#' :: hexPair c.red ++ hexPair c.green ++ hexPair c.blue)

end Color

end BlockScript
