import Directive.Symbol
import Directive.Text.Blank
import Directive.Text.Span

/-!
# Tokens

The words of a filter segment: maximal runs without blanks and quotes, and quoted runs, which keep
their quotes and may hold blanks. A quote that is not closed belongs to no token.

A token is a constant as it stands if it is the word `in` or starts like a number; `quotedSpan?` is
what stands between the quotes of a quoted token.
-/

namespace Directive

open Text (Span isBlank)

/-- A word of a filter segment. -/
abbrev Token := List Char

namespace Token

/-- The characters that need no quotes around them in a token. -/
def isPlain (c : Char) : Bool :=
  !isBlank c && (Quote.ofChar? c).isNone

/-- Whether a character is an ASCII digit. -/
def isDigit (c : Char) : Bool :=
  '0' ≤ c && c ≤ '9'

/-- Whether a token is a constant as it stands: the word `in`, or a token that starts with a digit
or with a minus sign and a digit. -/
def isConstant (token : Token) : Bool :=
  token = ['i', 'n'] || match token with
    | '-' :: c :: _ => isDigit c
    | c :: _ => isDigit c
    | [] => false

/-- The quote that a byte of a text is. -/
def quoteOfByte? (byte : UInt8) : Option Quote :=
  Quote.ofChar? (Char.ofUInt8 byte)

/-- The span between the two ends of a token that starts and ends with the same quote. -/
def quotedSpan? (token : Token) : Option Span :=
  let bytes := Text.utf8 token
  match bytes.head?, bytes.getLast? with
  | some first, some last =>
    if 2 ≤ bytes.length ∧ first = last ∧ (quoteOfByte? first).isSome then
      some ⟨1, bytes.length - 1⟩
    else
      none
  | _, _ => none

/-- What stands between the quotes of a token that starts and ends with the same quote. -/
def unquote? (token : Token) : Option (List Char) :=
  (quotedSpan? token).map (·.cut token)

end Token

/-- The tokens of a text, from left to right. -/
def tokens (text : List Char) : List Token :=
  match text with
  | [] => []
  | c :: rest =>
    match Quote.ofChar? c with
    | some quote =>
      if quote.char ∈ rest then
        (c :: rest.takeWhile (· ≠ quote.char) ++ [quote.char])
          :: tokens (rest.dropWhile (· ≠ quote.char)).tail
      else
        tokens rest
    | none =>
      if isBlank c then tokens rest
      else (c :: rest.takeWhile Token.isPlain) :: tokens (rest.dropWhile Token.isPlain)
termination_by text.length
decreasing_by
  all_goals simp only [List.length_cons, List.length_tail]
  · have := (List.dropWhile_sublist (l := rest) (· ≠ quote.char)).length_le
    omega
  · omega
  · omega
  · have := (List.dropWhile_sublist (l := rest) Token.isPlain).length_le
    omega

end Directive
