import Directive.Json.Reader

/-!
# Strings in JSON text

Reading the characters of a string up to its closing quote. An escape by number stands for a UTF-16
unit: a high surrogate has to be followed by the escape of a low one, and the two are one
character.

A string that is not wanted is skipped by `skipString`, which minds the form of the escapes alone.
-/

namespace Directive.Json.Reader

/-- The value of a digit in base sixteen. -/
def hexValue? (c : Char) : Option Nat :=
  if '0' ≤ c ∧ c ≤ '9' then some (c.toNat - '0'.toNat)
  else if 'a' ≤ c ∧ c ≤ 'f' then some (c.toNat - 'a'.toNat + 10)
  else if 'A' ≤ c ∧ c ≤ 'F' then some (c.toNat - 'A'.toNat + 10)
  else none

/-- The UTF-16 unit that four digits in base sixteen stand for. Four bytes are taken whatever they
are. -/
def hexUnit : Reader Nat := fun text =>
  let fault : Fault :=
    if Text.byteLength text < 4 then .before .endInString []
    else ⟨.invalidEscape, Text.byteLength text - 4⟩
  match text with
  | a :: b :: c :: d :: rest =>
    match hexValue? a, hexValue? b, hexValue? c, hexValue? d with
    | some a, some b, some c, some d =>
      .ok ⟨((a * 16 + b) * 16 + c) * 16 + d, rest, by simp; omega⟩
    | _, _, _, _ => .error fault
  | _ => .error fault

/-- Takes one character of the escape that a low surrogate has to have. -/
def surrogatePart (expected : Char) : Reader Unit := do
  match ← peek with
  | none => failBefore .endInString
  | some c => if c = expected then skip else failWithin .unexpectedEndOfHexEscape

/-- Whether a UTF-16 unit is the first half of a character. -/
def isHighSurrogate (unit : Nat) : Bool :=
  0xD800 ≤ unit && unit ≤ 0xDBFF

/-- Whether a UTF-16 unit is the second half of a character. -/
def isLowSurrogate (unit : Nat) : Bool :=
  0xDC00 ≤ unit && unit ≤ 0xDFFF

/-- The character that one UTF-16 unit, or two, stand for. -/
def hexChar : Reader Char := do
  let unit ← hexUnit
  if isLowSurrogate unit then
    failBefore .loneSurrogate
  else if isHighSurrogate unit then
    surrogatePart '\\'
    surrogatePart 'u'
    let low ← hexUnit
    if isLowSurrogate low then
      pure (Char.ofNat (0x10000 + (unit - 0xD800) * 0x400 + (low - 0xDC00)))
    else
      failBefore .loneSurrogate
  else
    pure (Char.ofNat unit)

/-- The character that a short escape stands for. -/
def shortEscape? : Char → Option Char
  | '\x22' => some '\x22'
  | '\\' => some '\\'
  | '/' => some '/'
  | 'b' => some '\x08'
  | 'f' => some '\x0c'
  | 'n' => some '\n'
  | 'r' => some '\r'
  | 't' => some '\t'
  | _ => none

/-- The character that an escape stands for, after its backslash. -/
def escaped : Reader Char := do
  match ← peek with
  | none => failBefore .endInString
  | some c =>
    match shortEscape? c with
    | some value =>
      skip
      pure value
    | none =>
      if c = 'u' then
        skip
        hexChar
      else
        failWithin .invalidEscape

/-- The characters of a string up to its closing quote, after those in `seen`, the last of them
first. -/
def stringFrom (seen : List Char) : Reader (List Char) := fun text =>
  match text with
  | [] => .error (.before .endInString [])
  | c :: rest =>
    if c = '\x22' then
      .ok ⟨seen.reverse, rest, by simp⟩
    else if c = '\\' then
      match escaped rest with
      | .error fault => .error fault
      | .ok read =>
        (stringFrom (read.value :: seen) read.rest).map
          (·.widen (by have := read.length_le; simp; omega))
    else if c.toNat < 0x20 then
      .error (.within .controlCharacter (c :: rest))
    else
      (stringFrom (c :: seen) rest).map (·.widen (by simp))
termination_by text => text.length
decreasing_by
  all_goals simp only [List.length_cons]
  · have := read.length_le
    omega
  · omega

/-- A string after its opening quote. -/
def string : Reader String :=
  String.ofList <$> stringFrom []

/-- Skips an escape after its backslash. -/
def skipEscaped : Reader Unit := do
  match ← peek with
  | none => failBefore .endInString
  | some c =>
    if (shortEscape? c).isSome then
      skip
    else if c = 'u' then
      skip
      let _ ← hexUnit
      pure ()
    else
      failWithin .invalidEscape

/-- Skips a string after its opening quote. -/
def skipString : Reader Unit := fun text =>
  match text with
  | [] => .error (.before .endInString [])
  | c :: rest =>
    if c = '\x22' then
      .ok ⟨(), rest, by simp⟩
    else if c = '\\' then
      match skipEscaped rest with
      | .error fault => .error fault
      | .ok read =>
        (skipString read.rest).map (·.widen (by have := read.length_le; simp; omega))
    else if c.toNat < 0x20 then
      .error (.before .controlCharacter (c :: rest))
    else
      (skipString rest).map (·.widen (by simp))
termination_by text => text.length
decreasing_by
  all_goals simp only [List.length_cons]
  · have := read.length_le
    omega
  · omega

end Directive.Json.Reader
