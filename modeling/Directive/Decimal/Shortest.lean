/-!
# Shortest decimals

The fewest decimal digits that tell a floating point number from its neighbours. A number is
`mantissa · 2 ^ exponent`; the decimals that read back as it are those of an interval around it,
whose ends count when the mantissa is even. On the coarsest decimal grid that has a point in the
interval, the point nearest to the number is chosen, an even one if two are as near.
-/

namespace Directive.Decimal

/-- A positive binary number: `mantissa · 2 ^ exponent`. -/
structure Binary where
  mantissa : Nat
  exponent : Int
  /-- The next smaller number is half as far away as the next larger one. -/
  atPowerOfTwo : Bool

/-- A decimal number: `digits · 10 ^ exponent`. -/
structure Scaled where
  digits : Nat
  exponent : Int

/-- The point of the grid of multiples of `10 ^ grid` that is nearest to the number, if one of the
two grid points around the number reads back as it. -/
def nearestOn? (number : Binary) (grid : Int) : Option Scaled :=
  -- in quarters of the last binary place, so that the ends of the interval are whole
  let shift := number.exponent - 2
  let binary := Nat.pow 2 shift.natAbs
  let decimal := Nat.pow 10 grid.natAbs
  let up := (if 0 ≤ shift then binary else 1) * (if 0 ≤ grid then 1 else decimal)
  let down := (if 0 ≤ shift then 1 else binary) * (if 0 ≤ grid then decimal else 1)
  let value := 4 * number.mantissa * up
  let low := (4 * number.mantissa - if number.atPowerOfTwo then 1 else 2) * up
  let high := (4 * number.mantissa + 2) * up
  let isEven := number.mantissa % 2 = 0
  let readsBack (point : Nat) : Bool :=
    if isEven then low ≤ point * down && point * down ≤ high
    else low < point * down && point * down < high
  let below := value / down
  let above := below + 1
  match readsBack below, readsBack above with
  | true, true =>
    let toBelow := value - below * down
    let toAbove := above * down - value
    let below? := toBelow < toAbove || toBelow = toAbove && below % 2 = 0
    some ⟨if below? then below else above, grid⟩
  | true, false => some ⟨below, grid⟩
  | false, true => some ⟨above, grid⟩
  | false, false => none

/-- The shortest decimal that reads back as the number. No number needs a grid finer than
`10 ^ -343` or coarser than `10 ^ 309`. -/
def shortest (number : Binary) : Scaled :=
  ((List.range 653).findSome? fun (step : Nat) => nearestOn? number (309 - step)).getD ⟨0, 0⟩

/-- The binary number that a positive, finite floating point number is. -/
def Binary.ofFloat (value : Float) : Binary :=
  let bits := value.toBits.toNat % Nat.pow 2 63
  let fraction : Nat := bits % Nat.pow 2 52
  let biased : Nat := bits / Nat.pow 2 52
  if biased = 0 then ⟨fraction, -1074, false⟩
  else ⟨Nat.pow 2 52 + fraction, biased - 1075, fraction = 0 && 1 < biased⟩

/-- A decimal number in text: with a point and at least one place after it if its first digit
stands between the fifth place after the point and the sixteenth before it, and else as a number
with one digit before the point and a power of ten. -/
def Scaled.render (number : Scaled) : String :=
  let digits := toString number.digits
  let count : Int := digits.length
  -- the place of the point, counted from the first digit
  let point := count + number.exponent
  let zeros (count : Int) := String.ofList (List.replicate count.toNat '0')
  if 0 ≤ number.exponent ∧ point ≤ 16 then
    digits ++ zeros number.exponent ++ ".0"
  else if 0 < point ∧ point ≤ 16 then
    String.ofList (digits.toList.take point.toNat) ++ "."
      ++ String.ofList (digits.toList.drop point.toNat)
  else if -5 < point ∧ point ≤ 0 then
    "0." ++ zeros (-point) ++ digits
  else
    let power := point - 1
    let sign := if power < 0 then "-" else "+"
    let places := String.ofList (digits.toList.drop 1)
    String.ofList (digits.toList.take 1) ++ (if places.isEmpty then "" else "." ++ places)
      ++ "e" ++ sign ++ toString power.natAbs

/-- A finite floating point number in text, by its shortest decimal. -/
def render (value : Float) : String :=
  let sign := if value.toBits.toNat < Nat.pow 2 63 then "" else "-"
  if value == 0 then sign ++ "0.0"
  else sign ++ (shortest (.ofFloat value)).render

end Directive.Decimal
