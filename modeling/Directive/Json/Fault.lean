import Directive.Decimal.Shortest
import Directive.Text.Quoted
import Directive.Text.Utf8

/-!
# Faults of JSON text

What can be wrong with a JSON text, as causes and as the words that report them. Reading stops at
the first fault. A fault is placed by the number of bytes left to read; the report counts lines and
the bytes of the line that have been read.
-/

namespace Directive.Json

/-- What stands where a value of another kind is expected. -/
inductive Found where
  | null
  | boolean (value : Bool)
  | integer (value : Int)
  | floating (value : Float)
  | string (value : String)
  | sequence
  | map

/-- What can be wrong with a JSON text. -/
inductive Cause where
  | endInValue
  | endInString
  | endInList
  | endInObject
  | expectedValue
  | expectedIdent
  | keyNotString
  | expectedColon
  | expectedListComma
  | expectedObjectComma
  | trailingComma
  | trailingCharacters
  | invalidNumber
  | numberOutOfRange
  | controlCharacter
  | invalidEscape
  | unexpectedEndOfHexEscape
  | loneSurrogate
  /-- The value is of another kind than expected. -/
  | wrongType (found : Found) (expected : String)
  /-- The value is of the right kind but out of bounds. -/
  | wrongValue (found : Found) (expected : String)
  | missingField (name : String)
  | duplicateField (name : String)
  | unknownField (name expected : String)
  /-- A list that stands for an object has too few items. -/
  | wrongLength (items : Nat) (expected : String)

namespace Found

/-- The words for what stands in place of something else. -/
def describe : Found → String
  | null => "null"
  | boolean value => s!"boolean `{value}`"
  | integer value => s!"integer `{value}`"
  | floating value => s!"floating point `{Decimal.render value}`"
  | string value => s!"string {Text.quotedForReport value}"
  | sequence => "sequence"
  | map => "map"

end Found

namespace Cause

/-- The words for a cause. -/
def describe : Cause → String
  | endInValue => "EOF while parsing a value"
  | endInString => "EOF while parsing a string"
  | endInList => "EOF while parsing a list"
  | endInObject => "EOF while parsing an object"
  | expectedValue => "expected value"
  | expectedIdent => "expected ident"
  | keyNotString => "key must be a string"
  | expectedColon => "expected `:`"
  | expectedListComma => "expected `,` or `]`"
  | expectedObjectComma => "expected `,` or `\x7d`"
  | trailingComma => "trailing comma"
  | trailingCharacters => "trailing characters"
  | invalidNumber => "invalid number"
  | numberOutOfRange => "number out of range"
  | controlCharacter => "control character (\\u0000-\\u001F) found while parsing a string"
  | invalidEscape => "invalid escape"
  | unexpectedEndOfHexEscape => "unexpected end of hex escape"
  | loneSurrogate => "lone leading surrogate in hex escape"
  | wrongType found expected => s!"invalid type: {found.describe}, expected {expected}"
  | wrongValue found expected => s!"invalid value: {found.describe}, expected {expected}"
  | missingField name => s!"missing field `{name}`"
  | duplicateField name => s!"duplicate field `{name}`"
  | unknownField name expected => s!"unknown field `{name}`, expected {expected}"
  | wrongLength items expected => s!"invalid length {items}, expected {expected}"

end Cause

/-- What is wrong with a text, and where reading stopped. -/
structure Fault where
  /-- What is wrong. -/
  cause : Cause
  /-- How many bytes of the text are left to read. -/
  left : Nat

/-- What is wrong with a text, placed for a report. -/
structure Error where
  /-- What is wrong. -/
  cause : Cause
  /-- The line where reading stopped, from one. -/
  line : Nat
  /-- How many bytes of that line have been read. -/
  column : Nat

namespace Fault

/-- The fault of a text from which `rest` is still to be read. -/
def before (cause : Cause) (rest : List Char) : Fault :=
  ⟨cause, Text.byteLength rest⟩

/-- The fault of a text that shows at the first byte of `rest`, or at the end of the text. -/
def within (cause : Cause) (rest : List Char) : Fault :=
  ⟨cause, Text.byteLength rest - 1⟩

/-- The fault placed in its text. -/
def locate (fault : Fault) (text : List Char) : Error :=
  let done := (Text.utf8 text).take (Text.byteLength text - fault.left)
  let lineFeed := '\n'.toUInt8
  ⟨fault.cause, done.count lineFeed + 1, (done.reverse.takeWhile (· ≠ lineFeed)).length⟩

end Fault

/-- The report of what is wrong. -/
def Error.message (error : Error) : String :=
  s!"{error.cause.describe} at line {error.line} column {error.column}"

end Directive.Json
