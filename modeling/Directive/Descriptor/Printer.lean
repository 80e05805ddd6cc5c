import Directive.Descriptor
import Directive.Token

/-!
# Writing a directive

The text of a descriptor: the expression, and for each filter a pipe, the name and the arguments,
with one blank between any two of them. There are no escapes, so a constant is written between
quotes of the kind that it does not hold; only a constant that reads as a number or as the word
`in`, and that nothing in a directive could take for more than one token, is written as it is.
-/

namespace Directive

/-- Whether a text is read as part of one token wherever it stands: it holds no blank and no
symbol. -/
def standsBare (value : List Char) : Bool :=
  value.all fun c => !Text.isBlank c && (Symbol.ofChar? c).isNone

namespace Argument

/-- The quote that a constant is written between: the single one, unless the constant holds it. -/
def quoteFor (value : List Char) : Quote :=
  if Quote.single.char ∈ value then .double else .single

/-- The text of an argument in a directive. -/
def chars : Argument → List Char
  | dynamic name => name.toList
  | literal value =>
    let value := value.toList
    if Token.isConstant value && standsBare value then value
    else
      let quote := (quoteFor value).char
      quote :: value ++ [quote]

end Argument

/-- The text of a filter in a directive. -/
def Filter.chars (filter : Filter) : List Char :=
  filter.name.toList ++ filter.arguments.flatMap fun argument => ' ' :: argument.chars

/-- The text of a descriptor as a directive. A directive without an expression starts with its
first pipe. -/
def Descriptor.chars (descriptor : Descriptor) : List Char :=
  let expression := descriptor.expression.toList
  let filters := descriptor.pipeline.flatMap fun filter => ' ' :: '|' :: ' ' :: filter.chars
  if expression.isEmpty then filters.tail else expression ++ filters

/-- The text of an argument in a directive. -/
def Argument.render (argument : Argument) : String :=
  String.ofList argument.chars

/-- The text of a filter in a directive. -/
def Filter.render (filter : Filter) : String :=
  String.ofList filter.chars

/-- The text of a descriptor as a directive. -/
def Descriptor.render (descriptor : Descriptor) : String :=
  String.ofList descriptor.chars

end Directive
