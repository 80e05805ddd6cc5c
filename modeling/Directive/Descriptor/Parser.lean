import Directive.Descriptor
import Directive.Scan
import Directive.Token

/-!
# Reading a directive

A directive is cut at its separators. What stands before the first one is the expression, without
the blanks around it. Each segment after a separator is a filter: its first token is the name and
the other tokens are the arguments; a segment without a token is no filter. Every text is a
directive.
-/

namespace Directive

/-- The list, unless it is empty. -/
def unlessEmpty {α : Type} (items : List α) : Option (List α) :=
  if items.isEmpty then none else some items

/-- The argument that a token is: the word `in`, a number and what stands between quotes are
constants, any other token names a value. -/
def Argument.ofToken (token : Token) : Argument :=
  if token.isConstant then literal (String.ofList token)
  else match token.unquote? with
    | some inner => literal (String.ofList inner)
    | none => dynamic (String.ofList token)

/-- The filter that a segment is, if it holds a token. -/
def Filter.ofSegment? (segment : List Char) : Option Filter :=
  match tokens (Text.trim segment) with
  | [] => none
  | name :: args =>
    some ⟨String.ofList name, unlessEmpty (args.map Argument.ofToken)⟩

/-- The descriptor of a text that has been cut into pieces. -/
def Descriptor.ofPieces (text : List Char) (pieces : Pieces) : Descriptor where
  expression := String.ofList (Text.trim (pieces.expression.cut text))
  filters := unlessEmpty (pieces.segments.filterMap fun span => Filter.ofSegment? (span.cut text))

/-- What a directive says. -/
def Descriptor.parse (raw : String) : Descriptor :=
  Descriptor.ofPieces raw.toList (Pieces.ofText raw.toList)

end Directive
