import BlockScript.Number.Shortest

namespace BlockScript.Number

open Float.Model (UnpackedFloat)

structure Layout where
  /-- The least and the greatest decimal exponent written without a power of ten. -/
  least : Int
  greatest : Int
  /-- What stands in front of a positive exponent. -/
  plus : String
  tie : Tie

def Layout.double : Layout := ⟨-5, 15, "+", .even⟩

def Layout.single : Layout := ⟨-6, 12, "+", .even⟩

def Layout.message : Layout := ⟨-4, 15, "", .up⟩

def zeros (n : Nat) : List Char := List.replicate n '0'

def positional (digits : List Char) (exponent : Int) : List Char :=
  let places := digits.length + exponent
  if 0 ≤ exponent then digits ++ zeros exponent.toNat ++ ['.', '0']
  else if 0 < places then digits.take places.toNat ++ '.' :: digits.drop places.toNat
  else '0' :: '.' :: zeros (-places).toNat ++ digits

def scientific (plus : String) (digits : List Char) (power : Int) : List Char :=
  let mantissa := match digits with
    | first :: second :: others => first :: '.' :: second :: others
    | short => short
  let sign := if power < 0 then ['-'] else plus.toList
  mantissa ++ 'e' :: sign ++ Nat.toDigits 10 power.natAbs

def Layout.text (layout : Layout) (d : Decimal) : List Char :=
  let digits := Nat.toDigits 10 d.digits
  let power := digits.length - 1 + d.exponent
  if layout.least ≤ power && power ≤ layout.greatest then positional digits d.exponent
  else scientific layout.plus digits power

/-- The text of an unpacked number, of which `short` gives the shortest decimal. -/
def Layout.unpacked (layout : Layout) (short : Nat → Int → Decimal) (x : UnpackedFloat) : String :=
  let signed (sign : Float.Model.UnpackedFloat.Sign) (cs : List Char) : String :=
    String.ofList (match sign with | .positive => cs | .negative => '-' :: cs)
  match x with
  | .notANumber => "NaN"
  | .infinity sign => signed sign "inf".toList
  | .zero sign => signed sign "0.0".toList
  | .finite sign m e _ => signed sign (layout.text (short m e))

def Layout.ofDouble (layout : Layout) (x : Float) : String :=
  layout.unpacked (shortest (1 <<< 52) (-1074) layout.tie) x.toModel.unpack

def Layout.ofSingle (layout : Layout) (x : Float32) : String :=
  layout.unpacked (shortest (1 <<< 23) (-149) layout.tie) x.toModel.unpack

end BlockScript.Number
