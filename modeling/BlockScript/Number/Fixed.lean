namespace BlockScript.Number

/-- The natural number nearest to `n / d`; a tie goes to the even one. -/
def roundDiv (n d : Nat) : Nat :=
  let down := n / d
  let rest := 2 * (n % d)
  if rest < d || rest = d && down % 2 = 0 then down else down + 1

def roundScaled (places m : Nat) (e : Int) : Nat :=
  roundDiv ((m * Nat.pow 10 places) <<< e.toNat) (1 <<< (-e).toNat)

def withPlaces (places n : Nat) : List Char :=
  let behind := Nat.toDigits 10 (n % Nat.pow 10 places)
  let zeros := List.replicate (places - behind.length) '0'
  Nat.toDigits 10 (n / Nat.pow 10 places) ++ '.' :: zeros ++ behind

def fixed (places : Nat) (x : Float) : String :=
  let signed (sign : Float.Model.UnpackedFloat.Sign) (cs : List Char) : String :=
    String.ofList (match sign with | .positive => cs | .negative => '-' :: cs)
  match x.toModel.unpack with
  | .notANumber => "NaN"
  | .infinity sign => signed sign "inf".toList
  | .zero sign => signed sign (withPlaces places 0)
  | .finite sign m e _ => signed sign (withPlaces places (roundScaled places m e))

end BlockScript.Number
