import BlockScript.Json.Basic
import BlockScript.Json.Reader
import BlockScript.Number.Binary
import BlockScript.Number.Literal

namespace BlockScript.Json

structure NumeralParts where
  negative : Bool
  whole : List Char
  fraction : Option (List Char)
  power : Option Int

namespace NumeralParts

/-- The number of the digits behind `n`, as long as it stays below `2 ^ 64`, and how many digits
that takes. -/
def gather (n : Nat) : List Char → Nat × Nat
  | [] => (n, 0)
  | c :: cs =>
    let m := 10 * n + (c.toNat - '0'.toNat)
    if m < UInt64.size then
      let (m, taken) := gather m cs
      (m, taken + 1)
    else (n, 0)

/-- The number `n · 10 ^ e` by one operation on doubles, or by two far below one. It may miss the
nearest double by a little. -/
def scale (n : Nat) (e : Int) : Except Fault Float :=
  let x := Float.ofNat n
  if n = 0 then .ok x
  else if 308 < e then .error .numeralOutOfRange
  else if 0 ≤ e then
    let y := x * Number.ofDecimal 1 e
    if y.isInf then .error .numeralOutOfRange else .ok y
  else if -308 ≤ e then .ok (x / Number.ofDecimal 1 (-e))
  else if -616 ≤ e then .ok (x / Number.ofDecimal 1 308 / Number.ofDecimal 1 (-e - 308))
  else .ok 0

def magnitude (p : NumeralParts) : Except Fault Float :=
  let (n, taken) := gather 0 p.whole
  let (n, behind) := gather n (p.fraction.getD [])
  let power := p.power.getD 0
  if (UInt32.size / 2 : Nat) ≤ power then if n = 0 then .ok 0 else .error .numeralOutOfRange
  else scale n (power + (p.whole.length - taken : Nat) - behind)

def value (p : NumeralParts) : Except Fault Numeral := do
  let signed (x : Float) : Numeral := .double (if p.negative then -x else x)
  let (n, taken) := gather 0 p.whole
  if p.fraction.isSome || p.power.isSome || taken < p.whole.length then
    return signed (← p.magnitude)
  else if !p.negative then return .integer n
  else if 0 < n && n ≤ UInt64.size / 2 then return .integer (-n)
  else return signed (Float.ofNat n)

end NumeralParts

namespace Reader

/-- A row of digits that must not be empty; `ending` is the fault of a text that stops here. -/
def someDigits (ending : Fault) : Reader (List Char) := do
  match ← digits with
  | [] => throw (if (← look).isNone then ending else .badNumeral)
  | cs => return cs

def fraction (ending : Fault) : Reader (Option (List Char)) := do
  if (← look) = some '.' then
    advance
    return some (← someDigits ending)
  else return none

def power (ending : Fault) : Reader (Option Int) := do
  match ← look with
  | some 'e' | some 'E' =>
    advance
    let sign ← look
    if sign = some '+' || sign = some '-' then advance
    let n : Int := Number.ofDigits (← someDigits ending)
    return some (if sign = some '-' then -n else n)
  | _ => return none

def parts (ending : Fault) : Reader NumeralParts := do
  let negative := (← look) = some '-'
  if negative then advance
  match ← someDigits ending with
  | '0' :: _ :: _ => throw .badNumeral
  | whole => return ⟨negative, whole, ← fraction ending, ← power ending⟩

def numeral : Reader Numeral := do
  (← parts .cutValue).value

def skipNumeral : Reader Unit := do
  let _ ← parts .badNumeral

end Reader

end BlockScript.Json
