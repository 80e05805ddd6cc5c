/-!
# Symbols

The characters that shape a directive: two quotes, three pairs of brackets and the pipe. Each is an
ASCII character, so that it is one byte of a text, and no other character of a text has a byte that
is read as a symbol.

* `Symbol.ofChar?_char`: the character of a symbol is read as that symbol.
* `Symbol.char_of_ofChar?`: a character that is read as a symbol is the character of that symbol.
-/

namespace Directive

/-- The quotes. -/
inductive Quote where
  | single
  | double
deriving DecidableEq

namespace Quote

/-- The character of a quote. -/
def char : Quote → Char
  | single => '\x27'
  | double => '\x22'

/-- The quote that a character is. -/
def ofChar? : Char → Option Quote
  | '\x27' => some single
  | '\x22' => some double
  | _ => none

end Quote

/-- The kinds of brackets. -/
inductive Bracket where
  | paren
  | square
  | curly
deriving DecidableEq

namespace Bracket

/-- The character that opens a bracket. -/
def opener : Bracket → Char
  | paren => '('
  | square => '['
  | curly => '{'

/-- The character that closes a bracket. -/
def closer : Bracket → Char
  | paren => ')'
  | square => ']'
  | curly => '}'

end Bracket

/-- The characters with a meaning of their own in a directive. -/
inductive Symbol where
  | quote (quote : Quote)
  | opening (bracket : Bracket)
  | closing (bracket : Bracket)
  | pipe
deriving DecidableEq

namespace Symbol

/-- The character of a symbol. -/
def char : Symbol → Char
  | quote q => q.char
  | opening b => b.opener
  | closing b => b.closer
  | pipe => '|'

/-- The symbol that a character is. -/
def ofChar? : Char → Option Symbol
  | '\x27' => some (quote .single)
  | '\x22' => some (quote .double)
  | '(' => some (opening .paren)
  | ')' => some (closing .paren)
  | '[' => some (opening .square)
  | ']' => some (closing .square)
  | '{' => some (opening .curly)
  | '}' => some (closing .curly)
  | '|' => some pipe
  | _ => none

/-- The symbol that a byte of a text is. -/
def ofByte? (byte : UInt8) : Option Symbol :=
  ofChar? (Char.ofUInt8 byte)

/-- The character of a symbol is read as that symbol. -/
@[simp] theorem ofChar?_char (symbol : Symbol) : ofChar? symbol.char = some symbol := by
  rcases symbol with ⟨_ | _⟩ | ⟨_ | _ | _⟩ | ⟨_ | _ | _⟩ | _ <;> rfl

/-- A character that is read as a symbol is the character of that symbol. -/
theorem char_of_ofChar? {c : Char} {symbol : Symbol} (h : ofChar? c = some symbol) :
    symbol.char = c := by
  unfold ofChar? at h
  split at h <;> cases h <;> rfl

end Symbol

namespace Quote

/-- The character of a quote is read as that quote. -/
@[simp] theorem ofChar?_char (quote : Quote) : ofChar? quote.char = some quote := by
  cases quote <;> rfl

/-- A character that is read as a quote is the character of that quote. -/
theorem char_of_ofChar? {c : Char} {quote : Quote} (h : ofChar? c = some quote) :
    quote.char = c := by
  unfold ofChar? at h
  split at h <;> cases h <;> rfl

end Quote

end Directive
