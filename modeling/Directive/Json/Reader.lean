import Directive.Json.Fault

/-!
# Readers

A reader takes a value from the start of a text and leaves the rest. What it leaves is never longer
than what it was given, and the type says so: a loop that takes at least one character in each
round ends.
-/

namespace Directive.Json

/-- A value read from the start of a text, with the rest of the text. -/
structure Read (α : Type) (text : List Char) where
  /-- The value. -/
  value : α
  /-- What is left of the text. -/
  rest : List Char
  /-- Reading adds nothing to a text. -/
  length_le : rest.length ≤ text.length

/-- Reads a value from the start of a text, or finds a fault. -/
def Reader (α : Type) := (text : List Char) → Except Fault (Read α text)

namespace Read

variable {α β : Type} {text : List Char}

/-- The same reading with another value. -/
def map (f : α → β) (read : Read α text) : Read β text :=
  ⟨f read.value, read.rest, read.length_le⟩

/-- A reading from a part of the text that is left after another reading. -/
def widen {part : List Char} (read : Read α part) (h : part.length ≤ text.length) :
    Read α text :=
  ⟨read.value, read.rest, Nat.le_trans read.length_le h⟩

end Read

namespace Reader

variable {α β : Type}

/-- Reads nothing. -/
def done (value : α) : Reader α :=
  fun text => .ok ⟨value, text, Nat.le_refl _⟩

/-- Reads a value, and then what it asks for. -/
def andThen (reader : Reader α) (next : α → Reader β) : Reader β :=
  fun text =>
    match reader text with
    | .error fault => .error fault
    | .ok read => (next read.value read.rest).map (·.widen read.length_le)

instance : Monad Reader where
  pure := done
  bind := andThen

/-- Finds a fault once what has been read is done with. -/
def failBefore (cause : Cause) : Reader α :=
  fun text => .error (.before cause text)

/-- Finds a fault at the next byte. -/
def failWithin (cause : Cause) : Reader α :=
  fun text => .error (.within cause text)

/-- The characters that may stand between any two parts of a JSON text. -/
def isSpace (c : Char) : Bool :=
  c = ' ' || c = '\n' || c = '\t' || c = '\r'

/-- A text without the space at its start. -/
def afterSpace (text : List Char) : List Char :=
  text.dropWhile isSpace

theorem length_afterSpace_le (text : List Char) : (afterSpace text).length ≤ text.length :=
  (List.dropWhile_sublist _).length_le

theorem length_lt_of_afterSpace {text rest : List Char} {c : Char}
    (h : afterSpace text = c :: rest) : rest.length < text.length := by
  have := length_afterSpace_le text
  rw [h, List.length_cons] at this
  exact this

/-- Skips the space at the start. -/
def space : Reader Unit :=
  fun text => .ok ⟨(), afterSpace text, length_afterSpace_le text⟩

/-- The next character, which stays. -/
def peek : Reader (Option Char) :=
  fun text => .ok ⟨text.head?, text, Nat.le_refl _⟩

/-- Skips the next character. -/
def skip : Reader Unit :=
  fun text => .ok ⟨(), text.tail, by simp⟩

/-- Takes a word, letter by letter. -/
def word (expected : List Char) : Reader Unit :=
  fun text =>
    match expected, text with
    | [], text => .ok ⟨(), text, Nat.le_refl _⟩
    | _ :: _, [] => .error (.before .endInValue [])
    | e :: expected, c :: rest =>
      if c = e then (word expected rest).map (·.widen (by simp))
      else .error (.within .expectedIdent (c :: rest))

/-- Reads a text to its end, space aside. -/
def run (reader : Reader α) (text : String) : Except Error α :=
  let whole : Reader α := do
    let value ← reader
    space
    match ← peek with
    | none => pure value
    | some _ => failWithin .trailingCharacters
  match whole text.toList with
  | .ok read => .ok read.value
  | .error fault => .error (fault.locate text.toList)

end Reader

end Directive.Json
