/-!
The shortest decimal that reads back as a given binary number. The number is `mantissa · 2 ^ power`
and stands for all reals that are rounded to it, an interval around it. Of the decimals with one
digit, two digits and so on the first that lies in the interval is taken, of two equally short ones
the nearer one.
-/

namespace NamedRoutes.Decimal

/-- A positive decimal: the digits `digits` with the point after the first `point` of them. -/
structure Digits where
  digits : List Nat
  point : Int
  deriving DecidableEq, Repr

/-- A positive rational interval around a value, over one denominator. -/
structure Interval where
  low : Nat
  value : Nat
  high : Nat
  denominator : Nat
  /-- Whether the ends belong to the interval. -/
  closed : Bool
  deriving DecidableEq, Repr

namespace Interval

/-- The reals that are rounded to `mantissa · 2 ^ power`. Below a number that starts a binade the
next one is only half as far away. -/
def ofBinary (mantissa : Nat) (power : Int) (startsBinade : Bool) : Interval :=
  let low := 4 * mantissa - (if startsBinade then 1 else 2)
  let scale := Nat.pow 2 (power - 2).toNat
  { low := low * scale
    value := 4 * mantissa * scale
    high := (4 * mantissa + 2) * scale
    denominator := Nat.pow 2 (2 - power).toNat
    closed := mantissa % 2 == 0 }

def shift (i : Interval) (power : Int) : Interval :=
  let up := Nat.pow 10 power.toNat
  { i with
    low := i.low * up, value := i.value * up, high := i.high * up
    denominator := i.denominator * Nat.pow 10 (-power).toNat }

def holds (i : Interval) (n : Nat) : Bool :=
  let scaled := n * i.denominator
  if i.closed then i.low ≤ scaled && scaled ≤ i.high else i.low < scaled && scaled < i.high

/-- The whole number of the interval next to its value, if there is one. Of two equally near ones
the even one is taken. -/
def nearest? (i : Interval) : Option Nat :=
  let below := i.value / i.denominator
  let above := below + 1
  let toBelow := i.value - below * i.denominator
  let toAbove := above * i.denominator - i.value
  let belowFirst := toBelow < toAbove || (toBelow == toAbove && below % 2 == 0)
  match i.holds below, i.holds above with
  | true, true => some (if belowFirst then below else above)
  | true, false => some below
  | false, true => some above
  | false, false => none

end Interval

/-- The decimal digits of a number, the last one first. -/
def reversedDigits : Nat → Nat → List Nat
  | 0, _ => []
  | fuel + 1, n => if n = 0 then [] else n % 10 :: reversedDigits fuel (n / 10)

def digitsOf (n : Nat) : List Nat := (reversedDigits (n + 1) n).reverse

/-- The number of digits before the point of the value; nothing or less if the value starts with
that many zeros after the point. -/
def magnitude (i : Interval) : Int :=
  let whole := i.value / i.denominator
  if whole != 0 then (digitsOf whole).length else -(leadingZeros 400 (i.shift 1) : Nat)
where
  leadingZeros : Nat → Interval → Nat
    | 0, _ => 0
    | fuel + 1, i =>
        if i.denominator ≤ i.value then 0 else leadingZeros fuel (i.shift 1) + 1

/-- The first hit among decimals of `count`, `count + 1`, … digits. -/
def searchDigits (i : Interval) (point : Int) : Nat → Nat → Option Digits
  | 0, _ => none
  | fuel + 1, count =>
      match (i.shift (count - point)).nearest? with
      | some n =>
          let digits := digitsOf n
          let point := point + (digits.length - count : Int)
          some ⟨(digits.reverse.dropWhile (· == 0)).reverse, point⟩
      | none => searchDigits i point fuel (count + 1)

/-- The shortest decimal in an interval. Seventeen digits tell all numbers of double precision
apart. -/
def shortest (i : Interval) : Digits :=
  (searchDigits i (magnitude i) 17 1).getD ⟨[0], 1⟩

/-- How a format writes a number: with all its digits around the point while the point is not too
far from them, and with a power of ten beyond. -/
structure Layout where
  /-- The point stands among the digits if it comes after more than `leastPoint` places … -/
  leastPoint : Int
  /-- … and after at most `mostPoint` places. -/
  mostPoint : Int
  /-- The least number of digits of a power. -/
  powerDigits : Nat
  deriving DecidableEq, Repr

def digitChar (digit : Nat) : Char := Char.ofNat ('0'.toNat + digit)

/-- A decimal written out by a layout. A whole number keeps a zero after its point. -/
def Digits.write (layout : Layout) (d : Digits) : List Char :=
  let text := d.digits.map digitChar
  if layout.leastPoint < d.point && d.point ≤ layout.mostPoint then
    if d.point ≤ 0 then '0' :: '.' :: (List.replicate (-d.point).toNat '0' ++ text)
    else
      let point := d.point.toNat
      let whole := text.take point ++ List.replicate (point - text.length) '0'
      let fraction := text.drop point
      whole ++ '.' :: (if fraction.isEmpty then ['0'] else fraction)
  else
    let power := d.point - 1
    let digits := (toString power.natAbs).toList
    let padding := List.replicate (layout.powerDigits - digits.length) '0'
    let fraction := if text.length ≤ 1 then [] else '.' :: text.drop 1
    text.take 1 ++ fraction ++ 'e' :: (if power < 0 then '-' else '+') :: padding ++ digits

inductive Double where
  | nan
  | infinite (negative : Bool)
  /-- The number `mantissa · 2 ^ power`; with `startsBinade` its lower neighbour is nearer than its
  upper one. -/
  | finite (negative : Bool) (mantissa : Nat) (power : Int) (startsBinade : Bool)
  deriving DecidableEq, Repr

def Double.ofBits (bits : UInt64) : Double :=
  let negative := bits >>> 63 == 1
  let exponent := ((bits >>> 52) &&& 0x7FF).toNat
  let fraction := (bits &&& 0xFFFFFFFFFFFFF).toNat
  if exponent = 0x7FF then (if fraction = 0 then .infinite negative else .nan)
  else if exponent = 0 then .finite negative fraction (-1074) false
  else .finite negative (fraction + Nat.pow 2 52) (exponent - 1075) (fraction = 0 && 1 < exponent)

/-- A number written out with the fewest digits that read back. -/
def Double.write (layout : Layout) : Double → List Char
  | .nan => "nan".toList
  | .infinite negative => sign negative ++ "inf".toList
  | .finite negative mantissa power startsBinade =>
      sign negative ++
        if mantissa = 0 then "0.0".toList
        else (shortest (.ofBinary mantissa power startsBinade)).write layout
where
  sign (negative : Bool) : List Char := if negative then ['-'] else []

end NamedRoutes.Decimal
