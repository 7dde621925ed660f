import BlockScript.Number.Binary

namespace BlockScript.Number

def ofDigits (cs : List Char) : Nat :=
  cs.foldl (fun n c => 10 * n + (c.toNat - '0'.toNat)) 0

def power? : List Char → Option Int
  | [] => some 0
  | e :: rest =>
    let (negative, digits) := match rest with
      | '-' :: digits => (true, digits)
      | '+' :: digits => (false, digits)
      | digits => (false, digits)
    if e.toLower = 'e' && digits ≠ [] && digits.all Char.isDigit then
      some (if negative then -ofDigits digits else ofDigits digits)
    else none

def magnitude? (cs : List Char) : Option Float :=
  match String.ofList (cs.map Char.toLower) with
  | "inf" | "infinity" => some (1 / 0)
  | "nan" => some (0 / 0)
  | _ =>
    let whole := cs.takeWhile Char.isDigit
    let afterWhole := cs.dropWhile Char.isDigit
    let (part, rest) := match afterWhole with
      | '.' :: behind => (behind.takeWhile Char.isDigit, behind.dropWhile Char.isDigit)
      | _ => ([], afterWhole)
    if whole ++ part = [] then none
    else (power? rest).map fun e => ofDecimal (ofDigits (whole ++ part)) (e - part.length)

def read? : List Char → Option Float
  | '-' :: cs => (magnitude? cs).map (- ·)
  | '+' :: cs => magnitude? cs
  | cs => magnitude? cs

end BlockScript.Number
