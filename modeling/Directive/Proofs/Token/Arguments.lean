import Directive.Descriptor.Printer
import Directive.Descriptor.Parser
import Directive.Proofs.Scan.Bytes
import Directive.Proofs.Token.Words

/-!
# Words as arguments

What a word stands for, and what an argument is written as. A run of plain characters stands for
itself, a quoted run for what is between its quotes. Main facts:

* `Argument.ofToken_of_isBare`, `Argument.ofToken_quoted`: the argument that a word is.
* `Argument.wellFormed_ofToken`: the arguments that words are can all be written.
* `Argument.ofToken_chars`: the text of a well-formed argument is a word and is read back as it.
-/

namespace Directive

open Text (utf8 byteLength)

namespace Token

/-- The byte of a quote. -/
theorem eq_toUInt8_of_quoteOfByte? {byte : UInt8} {quote : Quote}
    (h : quoteOfByte? byte = some quote) : byte = quote.char.toUInt8 := by
  have hchar : quote.char = Char.ofUInt8 byte := Quote.char_of_ofChar? h
  rw [hchar]
  exact (UInt8.toUInt8_toUInt32 byte).symm

/-- The span between the quotes of a text in quotes. -/
theorem quotedSpan?_quoted (quote : Quote) (inner : List Char) :
    quotedSpan? (quote.char :: (inner ++ [quote.char])) = some ⟨1, 1 + byteLength inner⟩ := by
  have hbyte : ∃ byte, utf8 [quote.char] = [byte] ∧ (quoteOfByte? byte).isSome := by
    cases quote <;> exact ⟨_, rfl, rfl⟩
  obtain ⟨byte, hbyte, hquote⟩ := hbyte
  have hutf8 : utf8 (quote.char :: (inner ++ [quote.char])) = byte :: (utf8 inner ++ [byte]) := by
    rw [← List.singleton_append, Text.utf8_append, Text.utf8_append, hbyte]
    rfl
  -- a quote is one byte, so that the span runs from the second byte to the last but one
  have hlast : (byte :: (utf8 inner ++ [byte])).getLast? = some byte := by
    rw [← List.cons_append, List.getLast?_concat]
  have hlength : (byte :: (utf8 inner ++ [byte])).length = 1 + byteLength inner + 1 := by
    simp [byteLength]
    omega
  simp [quotedSpan?, hutf8, hlast, hlength, hquote]

/-- A token with a span between its quotes is a text in quotes. -/
theorem exists_of_quotedSpan? {token : Token} {span : Text.Span}
    (h : quotedSpan? token = some span) :
    ∃ (quote : Quote) (inner : List Char), token = quote.char :: (inner ++ [quote.char])
      ∧ span = ⟨1, 1 + byteLength inner⟩ := by
  -- both ends are the byte of a quote, and the token is longer than one byte
  have hends : ∃ quote : Quote, token.head? = some quote.char ∧ token.getLast? = some quote.char
      ∧ 2 ≤ byteLength token := by
    rw [quotedSpan?] at h
    split at h
    case h_1 first last hfirst hlast =>
      split at h
      case isTrue hquoted =>
        obtain ⟨hlength, rfl, hquote⟩ := hquoted
        obtain ⟨quote, hquote⟩ := Option.isSome_iff_exists.mp hquote
        have hascii : quote.char.toNat < 0x80 := (Symbol.quote quote).toNat_char_lt
        rw [eq_toUInt8_of_quoteOfByte? hquote] at hfirst hlast
        exact ⟨quote, (Text.head?_utf8_eq_some_iff hascii).mp hfirst,
          (Text.getLast?_utf8_eq_some_iff hascii).mp hlast, hlength⟩
      case isFalse => cases h
    case h_2 => cases h
  obtain ⟨quote, hfirst, hlast, hlength⟩ := hends
  obtain ⟨rest, rfl⟩ := List.head?_eq_some_iff.mp hfirst
  rcases List.eq_nil_or_concat rest with rfl | ⟨inner, c, rfl⟩
  · have hone : byteLength [quote.char] = 1 := by cases quote <;> rfl
    omega
  · rw [List.concat_eq_append] at h hlast ⊢
    obtain rfl : c = quote.char := by
      rw [← List.cons_append, List.getLast?_concat] at hlast
      exact Option.some.inj hlast
    rw [quotedSpan?_quoted] at h
    exact ⟨quote, inner, rfl, (Option.some.inj h).symm⟩

/-- The slice between the quotes of a text in quotes is that text. -/
theorem slice?_quoted (quote : Quote) (inner : List Char) :
    Text.Span.slice? ⟨1, 1 + byteLength inner⟩ (quote.char :: (inner ++ [quote.char]))
      = some inner := by
  have hone : byteLength [quote.char] = 1 := by cases quote <;> rfl
  have hslice := Text.Span.slice?_middle [quote.char] inner [quote.char]
  rwa [hone, List.singleton_append] at hslice

/-- Between the quotes of a text in quotes stands that text. -/
theorem unquote?_quoted (quote : Quote) (inner : List Char) :
    unquote? (quote.char :: (inner ++ [quote.char])) = some inner := by
  simp [unquote?, quotedSpan?_quoted, Text.Span.cut, slice?_quoted]

/-- A run of plain characters is not in quotes. -/
theorem unquote?_of_isBare {token : List Char} (h : IsBare token) : unquote? token = none := by
  rw [unquote?, Option.map_eq_none_iff, Option.eq_none_iff_forall_ne_some]
  intro span hspan
  obtain ⟨quote, inner, rfl, -⟩ := exists_of_quotedSpan? hspan
  have hplain := (isPlain_iff.mp (h.2 quote.char List.mem_cons_self)).2
  rw [Quote.ofChar?_char] at hplain
  cases hplain

/-- A text that starts with a quote is not a constant as it stands. -/
@[simp] theorem isConstant_quote (quote : Quote) (rest : List Char) :
    isConstant (quote.char :: rest) = false := by
  cases quote <;> simp [isConstant, Quote.char, isDigit]

/-- In a text of at least two characters a minus sign in front makes the second one count. -/
theorem isConstant_cons_cons (c d : Char) (rest : List Char) :
    isConstant (c :: d :: rest)
      = (decide (c :: d :: rest = ['i', 'n']) || if c = '-' then isDigit d else isDigit c) := by
  by_cases h : c = '-'
  · subst h
    rfl
  · simp [isConstant, h]

/-- A constant as it stands is not empty. -/
theorem ne_nil_of_isConstant {token : List Char} (h : isConstant token = true) : token ≠ [] := by
  rintro rfl
  cases h

end Token

open Token

/-- A text that stands bare is a run of plain characters. -/
theorem isBare_of_standsBare {value : List Char} (hne : value ≠ [])
    (h : standsBare value = true) : IsBare value := by
  refine ⟨hne, fun c hc => ?_⟩
  have hboth : Text.isBlank c = false ∧ Symbol.ofChar? c = none := by
    simpa using List.all_eq_true.mp h c hc
  exact isPlain_iff.mpr ⟨hboth.1, Quote.ofChar?_eq_none_of_symbol hboth.2⟩

namespace Argument

/-- A run of plain characters is a constant if it reads as one, and a name otherwise. -/
theorem ofToken_of_isBare {token : List Char} (h : IsBare token) :
    ofToken token
      = if isConstant token then literal (String.ofList token)
        else dynamic (String.ofList token) := by
  simp [ofToken, unquote?_of_isBare h]

/-- A text in quotes is the constant between them. -/
theorem ofToken_quoted (quote : Quote) (inner : List Char) :
    ofToken (quote.char :: (inner ++ [quote.char])) = literal (String.ofList inner) := by
  simp [ofToken, unquote?_quoted]

/-- An argument that can be written: a name is a run of plain characters that does not read as a
constant, and a constant does not hold both quotes. -/
def WellFormed : Argument → Prop
  | literal value => ∃ quote : Quote, quote.char ∉ value.toList
  | dynamic name => IsBare name.toList ∧ isConstant name.toList = false

/-- The argument that a word is can be written. -/
theorem wellFormed_ofToken {token : List Char} (h : IsWord token) : (ofToken token).WellFormed := by
  rcases h with h | ⟨quote, inner, hinner, rfl⟩
  · rw [ofToken_of_isBare h]
    split
    case isTrue =>
      -- a run of plain characters holds no quote at all
      refine ⟨.single, fun hmem => ?_⟩
      rw [String.toList_ofList] at hmem
      exact ne_char_of_isPlain (h.2 _ hmem) .single rfl
    case isFalse hconstant =>
      simpa [WellFormed] using And.intro h hconstant
  · rw [ofToken_quoted]
    exact ⟨quote, by simpa using hinner⟩

/-- The quote that a constant is written between is not in it. -/
theorem quoteFor_not_mem {value : List Char} (h : ∃ quote : Quote, quote.char ∉ value) :
    (quoteFor value).char ∉ value := by
  obtain ⟨quote, hquote⟩ := h
  unfold quoteFor
  split
  case isTrue hsingle =>
    cases quote with
    | single => exact absurd hsingle hquote
    | double => exact hquote
  case isFalse hsingle => exact hsingle

/-- The text of a constant: itself if it reads as one and stands bare, and otherwise in quotes. -/
theorem chars_literal (value : String) :
    (literal value).chars
      = if isConstant value.toList && standsBare value.toList then value.toList
        else (quoteFor value.toList).char
          :: (value.toList ++ [(quoteFor value.toList).char]) := rfl

/-- The text of a well-formed argument is a word. -/
theorem isWord_chars {argument : Argument} (h : argument.WellFormed) : IsWord argument.chars := by
  cases argument with
  | dynamic name => exact Or.inl h.1
  | literal value =>
    rw [chars_literal]
    split
    case isTrue hbare =>
      obtain ⟨hconstant, hstands⟩ := Bool.and_eq_true_iff.mp hbare
      exact Or.inl (isBare_of_standsBare (ne_nil_of_isConstant hconstant) hstands)
    case isFalse => exact Or.inr (isQuoted_of_not_mem (quoteFor_not_mem h))

/-- The text of a well-formed argument is read back as the argument. -/
theorem ofToken_chars {argument : Argument} (h : argument.WellFormed) :
    ofToken argument.chars = argument := by
  cases argument with
  | dynamic name =>
    obtain ⟨hbare, hconstant⟩ := h
    have hread := ofToken_of_isBare hbare
    simpa [hconstant, chars] using hread
  | literal value =>
    rw [chars_literal]
    split
    case isTrue hbare =>
      obtain ⟨hconstant, hstands⟩ := Bool.and_eq_true_iff.mp hbare
      have hread := ofToken_of_isBare
        (isBare_of_standsBare (ne_nil_of_isConstant hconstant) hstands)
      simpa [hconstant] using hread
    case isFalse => rw [ofToken_quoted, String.ofList_toList]

end Argument

end Directive
