import Directive.Context
import Directive.Text.Span

/-!
# Scanning for separators

A separator is a pipe that stands alone, outside quotes and with every bracket depth at zero. One
pass over the bytes of a directive finds the separators and with them the spans between them: the
span of the expression and the spans of the segments, one for each separator.
-/

namespace Directive

open Text (Span)

/-- The spans that the separators of a directive cut it into. -/
structure Pieces where
  /-- What stands before the first separator. -/
  expression : Span
  /-- What follows each separator, up to the next one. -/
  segments : List Span
deriving DecidableEq

/-- How far a directive has been read. -/
structure Scan where
  /-- The context of the next byte. -/
  context : Context
  /-- The symbol that the byte just read is. -/
  before : Option Symbol
  /-- The number of bytes read. -/
  position : Nat
  /-- Where the open span starts. -/
  start : Nat
  /-- The spans closed so far, the last one first. -/
  closed : List Span
deriving DecidableEq

namespace Scan

/-- Nothing has been read yet. -/
def init : Scan :=
  ⟨.start, none, 0, 0, []⟩

/-- Whether the next byte is a separator: `here` is what it is and `after` what follows it. -/
def separates (scan : Scan) (here after : Option Symbol) : Bool :=
  here = some .pipe && scan.before ≠ some .pipe && after ≠ some .pipe && scan.context.isTop

/-- Reads one byte: `here` is what it is and `after` what follows it. -/
def step (scan : Scan) (here after : Option Symbol) : Scan :=
  let next := { scan with
    context := here.elim scan.context scan.context.step
    before := here
    position := scan.position + 1 }
  if scan.separates here after then
    { next with start := scan.position + 1, closed := ⟨scan.start, scan.position⟩ :: scan.closed }
  else
    next

/-- Reads the bytes to their end, each given as what symbol it is. -/
def run (scan : Scan) : List (Option Symbol) → Scan
  | [] => scan
  | here :: rest => (scan.step here rest.head?.join).run rest

/-- The pieces, once everything has been read. -/
def pieces (scan : Scan) : Pieces :=
  let last : Span := ⟨scan.start, scan.position⟩
  match scan.closed.reverse with
  | [] => ⟨last, []⟩
  | expression :: segments => ⟨expression, segments ++ [last]⟩

end Scan

/-- What symbol each byte of a text is. -/
def symbols (text : List Char) : List (Option Symbol) :=
  (Text.utf8 text).map Symbol.ofByte?

/-- The pieces of a directive. -/
def Pieces.ofText (text : List Char) : Pieces :=
  (Scan.init.run (symbols text)).pieces

end Directive
