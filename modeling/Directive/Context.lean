import Directive.Symbol

/-!
# Contexts

Where a character of a directive stands: in which quote, and how deep in brackets. The context is
read off the symbols before the character. A quote met outside quotes opens, only the same quote
closes it, and in between nothing else counts. Outside quotes an opening bracket adds one to the
depth of its kind and a closing bracket takes one away, so that a depth may fall below zero.
-/

namespace Directive

/-- The depth in each kind of bracket: the openers less the closers met so far. -/
structure Nesting where
  /-- The depth in round brackets. -/
  paren : Int32
  /-- The depth in square brackets. -/
  square : Int32
  /-- The depth in curly brackets. -/
  curly : Int32
deriving DecidableEq

namespace Nesting

/-- No bracket is open. -/
def flat : Nesting :=
  ⟨0, 0, 0⟩

/-- The depth in one kind of bracket. -/
def depth (nesting : Nesting) : Bracket → Int32
  | .paren => nesting.paren
  | .square => nesting.square
  | .curly => nesting.curly

/-- The nesting with the depth in one kind of bracket changed by `change`. -/
def add (nesting : Nesting) (bracket : Bracket) (change : Int32) : Nesting :=
  match bracket with
  | .paren => { nesting with paren := nesting.paren + change }
  | .square => { nesting with square := nesting.square + change }
  | .curly => { nesting with curly := nesting.curly + change }

end Nesting

/-- Where a character stands. -/
structure Context where
  /-- The quote that is open, if one is. -/
  quote : Option Quote
  /-- How deep in brackets the character stands. -/
  nesting : Nesting
deriving DecidableEq

namespace Context

/-- The context of the first character. -/
def start : Context :=
  ⟨none, .flat⟩

/-- The context after a symbol. -/
def step (context : Context) (symbol : Symbol) : Context :=
  match context.quote, symbol with
  | none, .quote q => { context with quote := some q }
  | none, .opening b => { context with nesting := context.nesting.add b 1 }
  | none, .closing b => { context with nesting := context.nesting.add b (-1) }
  | none, .pipe => context
  | some q, .quote r => if r = q then { context with quote := none } else context
  | some _, _ => context

/-- Whether no quote and no bracket is open. -/
def isTop (context : Context) : Bool :=
  context = start

end Context

end Directive
