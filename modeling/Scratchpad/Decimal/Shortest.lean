import Scratchpad.Decimal.Binary64

/-! The shortest decimal text of a binary number: the fewest digits that no other number is nearer
to, and of these the nearest to the number itself.
-/

namespace Scratchpad.Decimal

/-- The decimal `0.d * 10 ^ point`, where `d` are the digits. -/
structure Digits where
  digits : List Char
  point : Int
deriving DecidableEq

namespace Binary64

/-- The decimals that are read as a number, as fractions over `unit`: the number itself, and how
far they reach below and above it. The ends belong to them if the significand is even.
-/
structure Reach where
  value : Nat
  below : Nat
  above : Nat
  unit : Nat
  ends : Bool

/-- The decimals that are read as a number: half the way to its neighbours, of which the lower is
nearer if the significand is the least of its exponent.
-/
def reach (number : Binary64) : Reach :=
  let scale := Nat.pow 2 number.exponent.toNat
  let narrow := number.significand = Nat.pow 2 (precision - 1) ∧ leastExponent < number.exponent
  { value := 4 * number.significand * scale
    below := if narrow then scale else 2 * scale
    above := 2 * scale
    unit := 4 * Nat.pow 2 (-number.exponent).toNat
    ends := number.significand % 2 == 0 }

/-- Whether `count * 10 ^ exponent` is read as the number. -/
def Reach.contains (reach : Reach) (count : Nat) (exponent : Int) : Bool :=
  let decimal := count * Nat.pow 10 exponent.toNat * reach.unit
  let scale := Nat.pow 10 (-exponent).toNat
  let low := (reach.value - reach.below) * scale
  let high := (reach.value + reach.above) * scale
  if reach.ends then low ≤ decimal && decimal ≤ high else low < decimal && decimal < high

/-- The least `point` with the number below `10 ^ point`. -/
def pointOf (reach : Reach) : Int :=
  if reach.unit ≤ reach.value then
    (Nat.toDigits 10 (reach.value / reach.unit)).length
  else
    go reach.value 400
where
  /-- How often a fraction below one can be multiplied by ten and stay below one. -/
  go (value : Nat) : (rounds : Nat) → Int
    | 0 => 0
    | rounds + 1 => if reach.unit ≤ value * 10 then 0 else go (value * 10) rounds - 1

/-- The decimal with a number of digits that is read as the number and nearest to it. -/
def nearest? (reach : Reach) (point : Int) (digits : Nat) : Option Nat :=
  let exponent := point - digits
  let top := reach.value * Nat.pow 10 (-exponent).toNat
  let bottom := reach.unit * Nat.pow 10 exponent.toNat
  let low := top / bottom
  let toHigh := Binary64.roundedQuotient top bottom = low + 1
  match reach.contains low exponent, reach.contains (low + 1) exponent with
  | true, true => some (if toHigh then low + 1 else low)
  | true, false => some low
  | false, true => some (low + 1)
  | false, false => none

/-- The first count of digits that suffices. -/
def search (reach : Reach) (point : Int) : (rounds : Nat) → (digits : Nat) → Nat × Int
  | 0, digits => (0, point - digits)
  | rounds + 1, digits =>
    match nearest? reach point digits with
    | some count => (count, point - digits)
    | none => search reach point rounds (digits + 1)

/-- The shortest digits of a number. -/
def shortest (number : Binary64) : Digits :=
  if number.significand = 0 then
    ⟨['0'], 1⟩
  else
    let reach := number.reach
    let (count, exponent) := search reach (pointOf reach) 17 1
    let written := Nat.toDigits 10 count
    let trimmed := (written.reverse.dropWhile (· = '0')).reverse
    ⟨trimmed, written.length + exponent⟩

end Binary64

------------------------------------------------------------------------------------------
-- Layout
------------------------------------------------------------------------------------------

/-- Digits are written out with a point as long as it stands above this place. -/
def leastPoint : Int := -5

/-- Digits are written out with a point as long as it stands no further right than this. -/
def greatestPoint : Int := 16

/-- An exponent with its sign. -/
def exponentText (exponent : Int) : String :=
  (if exponent < 0 then "-" else "+") ++ toString exponent.natAbs

/-- Digits with a point, or with an exponent if the point is far away. At least one digit stands
behind a point.
-/
def Digits.text (number : Digits) : String :=
  let zeros (count : Int) := String.ofList (List.replicate count.toNat '0')
  let size : Int := number.digits.length
  if leastPoint < number.point ∧ number.point ≤ greatestPoint then
    if number.point ≤ 0 then
      "0." ++ zeros (-number.point) ++ String.ofList number.digits
    else if size ≤ number.point then
      String.ofList number.digits ++ zeros (number.point - size) ++ ".0"
    else
      String.ofList (number.digits.take number.point.toNat) ++ "." ++
        String.ofList (number.digits.drop number.point.toNat)
  else
    let fraction := number.digits.drop 1
    String.ofList (number.digits.take 1) ++
      (if fraction.isEmpty then "" else "." ++ String.ofList fraction) ++
      "e" ++ exponentText (number.point - 1)

/-- The text of a number with a sign. -/
def Binary64.text (negative : Bool) (number : Binary64) : String :=
  (if negative then "-" else "") ++ number.shortest.text

end Scratchpad.Decimal
