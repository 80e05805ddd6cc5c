import Directive.Json.Reader
import Directive.Token

/-!
# Numbers in JSON text

A number without a point and an exponent is an integer while it fits into 64 bits. Any other number
is a floating point number: as many leading digits as fit into 64 bits are taken for its mantissa,
the other digits only move the point, and the mantissa is scaled by one multiplication or division
by a power of ten (by several where one is not enough).

A number that is not wanted is skipped by `skipNumber`, which minds its form alone.
-/

namespace Directive.Json

/-- A number in a JSON text. -/
inductive Number where
  | natural (value : UInt64)
  | negative (value : Int64)
  | floating (value : Float)

namespace Number

/-- A number as what stands in place of something else. -/
def toFound : Number → Found
  | natural value => .integer value.toNat
  | negative value => .integer value.toInt
  | floating value => .floating value

/-- The number `10 ^ exponent`. -/
def powerOfTen (exponent : Nat) : Float :=
  Float.ofScientific 1 false exponent

/-- The largest exponent of a power of ten among the floating point numbers. -/
def maxExponent : Nat := 308

/-- The number `value · 10 ^ exponent`, unless it is too large. -/
def scale? (value : Float) (exponent : Int) : Option Float :=
  if exponent.natAbs ≤ maxExponent then
    if 0 ≤ exponent then
      let scaled := value * powerOfTen exponent.natAbs
      if scaled.isInf then none else some scaled
    else
      some (value / powerOfTen exponent.natAbs)
  else if value == 0 then
    some value
  else if 0 ≤ exponent then
    none
  else
    scale? (value / powerOfTen maxExponent) (exponent + maxExponent)
termination_by exponent.natAbs
decreasing_by
  simp only [maxExponent] at *
  omega

/-- The value of a digit. -/
def digitValue (c : Char) : Nat :=
  c.toNat - '0'.toNat

/-- Appends digits to a number while it stays within a limit: the number, and the digits that were
not taken. -/
def gather (limit value : Nat) : List Char → Nat × List Char
  | [] => (value, [])
  | c :: digits =>
    if value * 10 + digitValue c ≤ limit then gather limit (value * 10 + digitValue c) digits
    else (value, c :: digits)

/-- The largest mantissa. -/
def maxMantissa : Nat := Nat.pow 2 64 - 1

/-- The largest exponent that is written out. -/
def maxWritten : Nat := Nat.pow 2 31 - 1

end Number

namespace Reader

open Number (gather maxMantissa maxWritten scale?)
open Token (isDigit)

/-- The digits at the start. -/
def digits : Reader (List Char) :=
  fun text => .ok ⟨text.takeWhile isDigit, text.dropWhile isDigit,
    (List.dropWhile_sublist _).length_le⟩

/-- Whether an exponent follows. -/
def startsExponent (c : Char) : Bool :=
  c = 'e' || c = 'E'

/-- The floating point number with a mantissa and an exponent, all of whose text has been read. -/
def scaled (isNegative : Bool) (mantissa : Nat) (exponent : Int) : Reader Number :=
  match scale? mantissa.toUInt64.toFloat exponent with
  | some value => pure (.floating (if isNegative then -value else value))
  | none => failBefore .numberOutOfRange

/-- The sign of an exponent: whether it is negative. -/
def exponentSign : Reader Bool := do
  match ← peek with
  | some '+' =>
    skip
    pure false
  | some '-' =>
    skip
    pure true
  | _ => pure false

/-- The digits that an exponent has to have. -/
def exponentDigits : Reader (List Char) := do
  match ← peek with
  | none => failBefore .endInValue
  | some c => if isDigit c then digits else failWithin .invalidNumber

/-- A number of which the mantissa has been read, and the mark of its exponent. -/
def withExponent (isNegative : Bool) (mantissa : Nat) (exponent : Int) : Reader Number := do
  let isReciprocal ← exponentSign
  let digits ← exponentDigits
  match gather maxWritten 0 digits with
  | (written, []) =>
    scaled isNegative mantissa (if isReciprocal then exponent - written else exponent + written)
  | (_, _ :: left) =>
    if mantissa ≠ 0 && !isReciprocal then
      -- the fault shows at the first digit that does not fit
      fun text => .error ⟨.numberOutOfRange, Text.byteLength text + left.length⟩
    else
      pure (.floating (if isNegative then -0.0 else 0.0))

/-- What may follow the digits of a floating point number: an exponent. -/
def perhapsExponent (isNegative : Bool) (mantissa : Nat) (exponent : Int) : Reader Number := do
  let next ← peek
  if next.any startsExponent then
    skip
    withExponent isNegative mantissa exponent
  else
    scaled isNegative mantissa exponent

/-- A number of which the integer part has been read, and the point. -/
def withPlaces (isNegative : Bool) (mantissa : Nat) (exponent : Int) : Reader Number := do
  match ← digits with
  | [] =>
    match ← peek with
    | none => failBefore .endInValue
    | some _ => failWithin .invalidNumber
  | places =>
    let (mantissa, left) := gather maxMantissa mantissa places
    perhapsExponent isNegative mantissa (exponent - (places.length - left.length : Nat))

/-- A number of which the integer part has been read, as the first digits of it and how many more
there are. -/
def afterInteger (isNegative : Bool) (mantissa left : Nat) : Reader Number := do
  let next ← peek
  if next = some '.' then
    skip
    withPlaces isNegative mantissa left
  else if next.any startsExponent || left ≠ 0 then
    perhapsExponent isNegative mantissa left
  else if !isNegative then
    pure (.natural mantissa.toUInt64)
  else if mantissa = 0 || Nat.pow 2 63 < mantissa then
    pure (.floating (-mantissa.toUInt64.toFloat))
  else
    pure (.negative (Int64.ofInt (-mantissa)))

/-- A number after its sign. -/
def unsigned (isNegative : Bool) : Reader Number := do
  match ← peek with
  | none => failBefore .endInValue
  | some '0' =>
    skip
    let next ← peek
    if next.any isDigit then failWithin .invalidNumber else afterInteger isNegative 0 0
  | some c =>
    if isDigit c then
      let (mantissa, left) := gather maxMantissa 0 (← digits)
      afterInteger isNegative mantissa left.length
    else
      failWithin .invalidNumber

/-- A number. -/
def number : Reader Number := do
  if (← peek) = some '-' then
    skip
    unsigned true
  else
    unsigned false

/-- Skips an exponent after its mark. -/
def skipExponent : Reader Unit := do
  let _ ← exponentSign
  let next ← peek
  if next.any isDigit then
    let _ ← digits
  else
    failWithin .invalidNumber

/-- Skips the exponent of a number, if there is one. -/
def skipPerhapsExponent : Reader Unit := do
  let next ← peek
  if next.any startsExponent then
    skip
    skipExponent

/-- Skips what follows the integer part of a number. -/
def skipFraction : Reader Unit := do
  if (← peek) = some '.' then
    skip
    let places ← digits
    if places.isEmpty then failWithin .invalidNumber else skipPerhapsExponent
  else
    skipPerhapsExponent

/-- Skips a number after its sign. -/
def skipUnsigned : Reader Unit := do
  match ← peek with
  | some '0' =>
    skip
    let next ← peek
    if next.any isDigit then failWithin .invalidNumber else skipFraction
  | next =>
    if next.any isDigit then
      let _ ← digits
      skipFraction
    else
      failWithin .invalidNumber

/-- Skips a number. -/
def skipNumber : Reader Unit := do
  if (← peek) = some '-' then
    skip
  skipUnsigned

end Reader

end Directive.Json
