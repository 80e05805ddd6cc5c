/-!
# JSON text

How JSON values are written. A `Writer` is a value that can be laid out in two ways: on one line
without blanks, or with every item on a line of its own, indented by two blanks for each level.
An empty list is `[]` in both.

In a string, quotes, backslashes and the characters below U+0020 are escaped, with the short escape
where there is one. All else stands for itself.
-/

namespace Directive.Json

/-- A digit of a number in base sixteen, in lower case. -/
def hexDigit (n : Nat) : Char :=
  Nat.digitChar (n % 16)

/-- A character as it is written in a string. -/
def escape (c : Char) : List Char :=
  match c with
  | '\x22' => ['\\', '\x22']
  | '\\' => ['\\', '\\']
  | '\x08' => ['\\', 'b']
  | '\x0c' => ['\\', 'f']
  | '\n' => ['\\', 'n']
  | '\r' => ['\\', 'r']
  | '\t' => ['\\', 't']
  | c =>
    if c.toNat < 0x20 then ['\\', 'u', '0', '0', hexDigit (c.toNat / 16), hexDigit c.toNat]
    else [c]

/-- A string between its quotes. -/
def quoted (text : List Char) : List Char :=
  '\x22' :: text.flatMap escape ++ ['\x22']

/-- How the parts of lists and objects are set apart. -/
structure Layout where
  /-- What stands before each item, and before the closing bracket, at a level. -/
  lineBreak : Nat → List Char
  /-- What stands between the colon after a key and the value. -/
  gap : List Char

namespace Layout

/-- Everything on one line, without blanks. -/
def compact : Layout where
  lineBreak _ := []
  gap := []

/-- Every item on its own line, two blanks for each level. -/
def pretty : Layout where
  lineBreak level := '\n' :: List.replicate (2 * level) ' '
  gap := [' ']

/-- The items between brackets, set apart by commas. The brackets stand at `level`. -/
def enclose (layout : Layout) (level : Nat) (opener closer : Char) (items : List (List Char)) :
    List Char :=
  if items.isEmpty then
    [opener, closer]
  else
    opener :: [','].intercalate (items.map (layout.lineBreak (level + 1) ++ ·))
      ++ layout.lineBreak level ++ [closer]

end Layout

/-- A JSON value that is ready to be written in some layout at some level. -/
def Writer := Layout → Nat → List Char

namespace Writer

/-- A string. -/
def text (value : String) : Writer :=
  fun _ _ => quoted value.toList

/-- A truth value. -/
def bool (value : Bool) : Writer :=
  fun _ _ => if value then ['t', 'r', 'u', 'e'] else ['f', 'a', 'l', 's', 'e']

/-- A natural number. -/
def nat (value : Nat) : Writer :=
  fun _ _ => Nat.toDigits 10 value

/-- A list of values. -/
def list (items : List Writer) : Writer :=
  fun layout level => layout.enclose level '[' ']' (items.map fun item => item layout (level + 1))

/-- An object with its members in order. -/
def object (members : List (String × Writer)) : Writer :=
  fun layout level => layout.enclose level '{' '}'
    (members.map fun (key, value) =>
      quoted key.toList ++ ':' :: layout.gap ++ value layout (level + 1))

/-- The text of a value in a layout. -/
def render (writer : Writer) (layout : Layout) : String :=
  String.ofList (writer layout 0)

end Writer

end Directive.Json
