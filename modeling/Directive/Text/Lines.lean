import Directive.Text.Blank
import Directive.Text.Utf8

/-!
# Lines

A line feed ends a line, and belongs to it together with a carriage return directly before it; the
last line may end with the text instead. `lines` reads the lines of a text, `linesOfBytes?` those
of a stream of bytes of which each line has to be a text by itself.
-/

namespace Directive.Text

variable {α : Type} [DecidableEq α]

/-- The rows of a list: each runs up to and including a separator, the last one perhaps up to the
end of the list. -/
def rows (separator : α) (items : List α) : List (List α) :=
  items.foldr (fun item rows =>
    if item = separator then [item] :: rows
    else match rows with
      | [] => [[item]]
      | row :: more => (item :: row) :: more) []

/-- A row without the line feed at its end, and without the carriage return directly before that
line feed. A row that does not end in a line feed is whole. -/
def chomp (row : List Char) : List Char :=
  match row.reverse with
  | '\n' :: '\r' :: rest => rest.reverse
  | '\n' :: rest => rest.reverse
  | _ => row

/-- The lines of a text. -/
def lines (text : List Char) : List (List Char) :=
  (rows '\n' text).map chomp

/-- The lines of a stream of bytes, unless some row of the stream is not UTF-8. -/
def linesOfBytes? (bytes : List UInt8) : Option (List (List Char)) :=
  ((rows '\n'.toUInt8 bytes).mapM ofUtf8?).map (·.map chomp)

/-- The lines that hold more than blank characters. -/
def nonBlank (lines : List (List Char)) : List (List Char) :=
  lines.filter fun line => !(trim line).isEmpty

/-- The rows of a list put together are the list. -/
@[simp] theorem flatten_rows (separator : α) (items : List α) :
    (rows separator items).flatten = items := by
  induction items with
  | nil => rfl
  | cons item items ih =>
    simp only [rows, List.foldr_cons] at ih ⊢
    split
    · simp [ih]
    · split
      · rename_i none; rw [none] at ih; simp [← ih]
      · rename_i some; rw [some] at ih; simp [← ih]

end Directive.Text
