/-!
# Shortest decimals

A binary fraction is written with the fewest decimal digits that read back as the same fraction; of
several such decimals the nearest is taken.  A finite fraction is `mantissa * 2 ^ exponent`, and a
decimal reads back iff it lies between the midpoints to the two neighbouring fractions.  The
midpoints themselves read back iff the mantissa is even.
-/

namespace LetterMachine.Numeral

/-- A positive finite fraction: `mantissa * 2 ^ exponent`. -/
structure Fraction where
  mantissa : Nat
  exponent : Int
  /-- Is the neighbour below only half as far away as the neighbour above? -/
  closerBelow : Bool
  deriving DecidableEq, Repr

/-- A positive decimal: `0.digits * 10 ^ point`, the first digit not zero. -/
structure Decimal where
  digits : List Nat
  /-- Where the point stands, counted from the front of the digits. -/
  point : Int
  deriving DecidableEq, Repr

def Fraction.ofBits (bits : Nat) : Fraction :=
  let field : Nat := bits / Nat.pow 2 52 % Nat.pow 2 11
  let low := bits % Nat.pow 2 52
  if field == 0 then ⟨low, -1074, false⟩
  else ⟨Nat.pow 2 52 + low, (field : Int) - 1075, low == 0 && field != 1⟩

/-- Numerators over one denominator of the fraction, of the midpoint below and of the one above. -/
structure Interval where
  center : Nat
  low : Nat
  high : Nat
  unit : Nat
  /-- Do the midpoints read back? -/
  closed : Bool
  deriving DecidableEq, Repr

def Fraction.interval (f : Fraction) : Interval :=
  let up := Nat.pow 2 f.exponent.toNat
  let down := Nat.pow 2 (-f.exponent).toNat
  let below := if f.closerBelow then 1 else 2
  ⟨4 * f.mantissa * up, (4 * f.mantissa - below) * up, (4 * f.mantissa + 2) * up, 4 * down,
    f.mantissa % 2 == 0⟩

/-- Does the decimal `n * 10 ^ e` read back? -/
def Interval.contains (i : Interval) (n : Nat) (e : Int) : Bool :=
  let left := n * Nat.pow 10 e.toNat * i.unit
  let scale := Nat.pow 10 (-e).toNat
  if i.closed then i.low * scale ≤ left && left ≤ i.high * scale
  else i.low * scale < left && left < i.high * scale

def Interval.magnitude (i : Interval) : Int :=
  let guess : Int := (Nat.toDigits 10 i.center).length - (Nat.toDigits 10 i.unit).length
  if Nat.pow 10 guess.toNat * i.unit ≤ i.center * Nat.pow 10 (-guess).toNat then guess + 1
  else guess

/-- The decimal of so many digits that reads back, the nearer one if both neighbours of the fraction
do; of two that are equally near, the even one. -/
def Interval.onGrid? (i : Interval) (count : Nat) : Option (Nat × Int) :=
  let e := i.magnitude - count
  let num := i.center * Nat.pow 10 (-e).toNat
  let den := i.unit * Nat.pow 10 e.toNat
  let below := num / den
  let rest := num % den
  match i.contains below e, i.contains (below + 1) e with
  | true, true =>
    -- both neighbours read back: the nearer one, and the even one of two
    if 2 * rest < den || (2 * rest == den && below % 2 == 0) then some (below, e)
    else some (below + 1, e)
  | true, false => some (below, e)
  | false, true => some (below + 1, e)
  | false, false => none

def significant (n : Nat) : List Nat :=
  (((Nat.toDigits 10 n).map fun c => c.toNat - 48).reverse.dropWhile (· == 0)).reverse

def Fraction.shortest (f : Fraction) : Decimal :=
  let i := f.interval
  match (List.range 17).findSome? fun k => i.onGrid? (k + 1) with
  | some (n, e) => ⟨significant n, (Nat.toDigits 10 n).length + e⟩
  | none => ⟨significant f.mantissa, (Nat.toDigits 10 f.mantissa).length + f.exponent⟩

/-- A decimal in positional notation up to sixteen places before the point and three zeros behind
it, and with an exponent of at least two digits otherwise.  Positional notation always shows a digit
behind the point. -/
def Decimal.text (d : Decimal) : String :=
  let digit := fun k : Nat => Nat.repr k
  let spell := fun ds : List Nat => String.join (ds.map digit)
  let count : Int := d.digits.length
  if -4 < d.point && d.point ≤ 16 then
    if d.point ≤ 0 then "0." ++ spell (List.replicate (-d.point).toNat 0) ++ spell d.digits
    else if count ≤ d.point then
      spell d.digits ++ spell (List.replicate (d.point - count).toNat 0) ++ ".0"
    else spell (d.digits.take d.point.toNat) ++ "." ++ spell (d.digits.drop d.point.toNat)
  else
    let power := (d.point - 1).natAbs
    let head := spell (d.digits.take 1)
    let tail := if count == 1 then "" else "." ++ spell (d.digits.drop 1)
    head ++ tail ++ (if d.point - 1 < 0 then "e-" else "e+")
      ++ (if power < 10 then "0" else "") ++ Nat.repr power

def floatText (x : Float) : String :=
  let bits := x.toBits.toNat
  let sign := if bits / Nat.pow 2 63 == 1 then "-" else ""
  if x.isNaN then "nan"
  else if x.isInf then sign ++ "inf"
  else if bits % Nat.pow 2 63 == 0 then sign ++ "0.0"
  else sign ++ (Fraction.ofBits (bits % Nat.pow 2 63)).shortest.text

/-- The whole number that a binary fraction equals, if there is one. -/
def wholeOfFloat? (x : Float) : Option Int :=
  let bits := x.toBits.toNat
  let f := Fraction.ofBits (bits % Nat.pow 2 63)
  let down := Nat.pow 2 (-f.exponent).toNat
  if !x.isFinite || f.mantissa % down != 0 then none
  else
    let size : Int := f.mantissa * Nat.pow 2 f.exponent.toNat / down
    some (if bits / Nat.pow 2 63 == 1 then -size else size)

end LetterMachine.Numeral
