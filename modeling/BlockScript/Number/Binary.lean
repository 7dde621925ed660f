namespace BlockScript.Number

open Float.Model (UnpackedFloat)

/-- The nearest number of single precision; a tie goes to the even significand. -/
def single (x : Float) : Float32 :=
  .ofModel (.pack (match x.toModel.unpack with
    | .finite sign m e _ => .round .binary32 sign m e
    | other => other))

def ceilScaled (m : Nat) (e : Int) : Nat :=
  if 0 ≤ e then m <<< e.toNat else (m + (1 <<< (-e).toNat) - 1) >>> (-e).toNat

def ceil (x : Float) : Nat :=
  match x.toModel.unpack with
  | .finite .positive m e _ => ceilScaled m e
  | _ => 0

def ofDecimal (m : Nat) (e : Int) : Float :=
  Float.ofScientific m (e < 0) e.natAbs

end BlockScript.Number
