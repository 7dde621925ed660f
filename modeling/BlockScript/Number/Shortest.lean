namespace BlockScript.Number

structure Decimal where
  digits : Nat
  exponent : Int
deriving DecidableEq

/-- The reals from `low · 2 ^ exponent` to `high · 2 ^ exponent` around `middle · 2 ^ exponent`. -/
structure Interval where
  low : Nat
  middle : Nat
  high : Nat
  exponent : Int
  closed : Bool

/-- The reals that round to `m · 2 ^ e`. Below a power of two, numbers lie twice as close. -/
def Interval.around (m : Nat) (e : Int) (powerOfTwo : Bool) : Interval where
  low := if powerOfTwo then 4 * m - 1 else 4 * m - 2
  middle := 4 * m
  high := 4 * m + 2
  exponent := e - 2
  closed := m % 2 = 0

inductive Tie
  | even
  | up

/-- The point of the grid of step `10 ^ k` that is nearest to the middle, if the interval holds
any point of that grid. -/
def Interval.onGrid? (i : Interval) (tie : Tie) (k : Int) : Option Decimal :=
  let unit := Nat.pow 10 (-k).toNat <<< i.exponent.toNat
  let step := Nat.pow 10 k.toNat <<< (-i.exponent).toNat
  let down := i.middle * unit / step
  let inside (d : Nat) : Bool :=
    if i.closed then i.low * unit ≤ d * step && d * step ≤ i.high * unit
    else i.low * unit < d * step && d * step < i.high * unit
  let below := i.middle * unit - down * step
  let above := (down + 1) * step - i.middle * unit
  let preferDown : Bool :=
    below < above || below = above && (match tie with | .even => down % 2 = 0 | .up => false)
  match inside down, inside (down + 1) with
  | true, true => some ⟨if preferDown then down else down + 1, k⟩
  | true, false => some ⟨down, k⟩
  | false, true => some ⟨down + 1, k⟩
  | false, false => none

def Interval.search (i : Interval) (tie : Tie) : Nat → Int → Decimal
  | 0, k => ⟨i.middle, k⟩
  | rounds + 1, k => (i.onGrid? tie k).getD (i.search tie rounds (k - 1))

/-- The shortest decimal in the interval. The first step tried exceeds every number in it, and
twenty digits tell any two doubles apart. -/
def Interval.shortest (i : Interval) (tie : Tie) : Decimal :=
  i.search tie 20 ((i.middle.log2 + 1 + i.exponent) * 30103 / 100000 + 1)

/-- The shortest decimal for `m · 2 ^ e`, in a format whose least normal significand is `hidden`
and whose least exponent is `least`. -/
def shortest (hidden : Nat) (least : Int) (tie : Tie) (m : Nat) (e : Int) : Decimal :=
  (Interval.around m e (m = hidden && least < e)).shortest tie

end BlockScript.Number
