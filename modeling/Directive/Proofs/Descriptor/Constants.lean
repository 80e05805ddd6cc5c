import Directive.Proofs.Descriptor.Written

/-!
# Written constants

A constant between blanks, as it is written into a directive, is one argument and nothing else,
whatever characters its value holds. A scan that stands outside quotes only moves on over it, at any
depths, also below zero. Main facts:

* `Scan.run_append_of_whole`: over a text without separators a scan only moves on.
* `Argument.whole_betweenBlanks`: a constant between blanks holds no separator.
* `Argument.run_betweenBlanks`: a scan outside quotes only moves on over it, and it is one token.
-/

namespace Directive

open Text (byteLength)

namespace Scan

/-- Over a character that is no separator a scan only moves on. -/
theorem stepChar_of_not_separates {scan : Scan} {before after : Option Char} {c : Char}
    (hbefore : scan.before = before.bind Symbol.ofChar?)
    (hsep : scan.context.separates before c after = false) :
    scan.stepChar c after = { scan with
      context := scan.context.feed c
      before := Symbol.ofChar? c
      position := scan.position + c.utf8Size } := by
  have hno : scan.separates (Symbol.ofChar? c) (after.bind Symbol.ofChar?) = false := by
    rw [separates_ofChar? scan hbefore, hsep]
  simp [stepChar, hno]

/-- Over a text without separators a scan only moves on: it closes no span. -/
theorem run_append_of_whole {scan : Scan} {before : Option Char} {text rest : List Char}
    (hbefore : scan.before = before.bind Symbol.ofChar?)
    (hwhole : scan.context.Whole before text rest.head?) :
    scan.run (symbols (text ++ rest))
      = Scan.run { scan with
          context := scan.context.read text
          before := (text.getLast?.or before).bind Symbol.ofChar?
          position := scan.position + byteLength text } (symbols rest) := by
  induction text generalizing scan before with
  | nil => simp [← hbefore]
  | cons c text ih =>
    obtain ⟨hsep, htext⟩ := Context.whole_cons.mp hwhole
    rw [List.cons_append, run_symbols_cons, List.head?_append,
      stepChar_of_not_separates hbefore hsep, ih (by simp) htext, Context.getLast?_cons_or,
      Context.read_cons]
    simp [Nat.add_assoc]

end Scan

namespace Argument

variable {value : String} {context : Context}

/-- A constant between blanks, as it stands in a directive. -/
def betweenBlanks (value : String) : List Char :=
  ' ' :: ((literal value).chars ++ [' '])

theorem getLast?_betweenBlanks (value : String) : (betweenBlanks value).getLast? = some ' ' := by
  rw [betweenBlanks, ← List.cons_append, List.getLast?_concat]

/-- A constant between blanks holds no separator, whatever stands around the blanks. -/
theorem whole_betweenBlanks (hvalue : (literal value).WellFormed) (hquote : context.quote = none)
    (before after : Option Char) : context.Whole before (betweenBlanks value) after := by
  have hblank : context.feed ' ' = context := rfl
  rw [betweenBlanks, Context.whole_cons, hblank, Context.whole_append,
    Context.whole_before (Or.inl (by simp)), Context.whole_after (Or.inl (by simp))]
  exact ⟨Context.separates_of_ne (by decide), whole_chars_literal hvalue hquote,
    Context.separates_of_ne (by decide), trivial⟩

/-- It leaves the context as it is. -/
theorem read_betweenBlanks (hvalue : (literal value).WellFormed) (hquote : context.quote = none) :
    context.read (betweenBlanks value) = context := by
  have hblank : ∀ context : Context, context.feed ' ' = context := fun _ => rfl
  rw [betweenBlanks, Context.read_cons, Context.read_append, hblank,
    read_chars_literal hvalue hquote, Context.read_cons, hblank, Context.read_nil]

/-- A constant that does not hold both quotes adds nothing to a directive but one argument. Over the
constant between blanks a scan that stands outside quotes only moves on: whatever the depths are, it
meets no separator, and it ends outside quotes at the same depths. The text of the constant is a
single token, and it is read as the constant again. -/
theorem run_betweenBlanks (scan : Scan) (hvalue : ¬ ∀ quote : Quote, quote.char ∈ value.toList)
    (hquote : scan.context.quote = none) (rest : List Char) :
    scan.run (symbols (betweenBlanks value ++ rest))
        = Scan.run { scan with
            before := none
            position := scan.position + byteLength (betweenBlanks value) } (symbols rest)
      ∧ tokens (literal value).chars = [(literal value).chars]
      ∧ tokens (betweenBlanks value ++ rest) = (literal value).chars :: tokens rest
      ∧ ofToken (literal value).chars = literal value := by
  have hwell : (literal value).WellFormed := not_forall.mp hvalue
  have hword := isWord_chars hwell
  have htokens : tokens (betweenBlanks value ++ rest) = (literal value).chars :: tokens rest := by
    rw [betweenBlanks, List.cons_append, tokens_cons_of_isBlank rfl, List.append_assoc,
      tokens_append_of_isWord hword (by simp [Text.isBlank]), List.cons_append, List.nil_append,
      tokens_cons_of_isBlank rfl]
  refine ⟨?_, ?_, htokens, ofToken_chars hwell⟩
  · -- the character before the first blank is that of the symbol that the scan has just read
    have hbefore : scan.before = (scan.before.map Symbol.char).bind Symbol.ofChar? := by
      cases scan.before <;> simp
    rw [Scan.run_append_of_whole hbefore (whole_betweenBlanks hwell hquote _ _),
      read_betweenBlanks hwell hquote, getLast?_betweenBlanks]
    rfl
  · have hend : ∀ c ∈ ([] : List Char).head?, Text.isBlank c = true := by simp
    simpa using tokens_append_of_isWord hword hend

/-- A value with a bracket, a pipe, a blank and a quote in it, after a pipe and at odd depths. -/
theorem run_betweenBlanks_odd_depths :
    (Scan.mk ⟨none, ⟨-3, 0, 7⟩⟩ (some .pipe) 5 2 [⟨0, 1⟩]).run
        (symbols (betweenBlanks "1|(\x22 x" ++ "| trim".toList))
        = (Scan.mk ⟨none, ⟨-3, 0, 7⟩⟩ none 15 2 [⟨0, 1⟩]).run (symbols "| trim".toList)
      ∧ tokens (literal "1|(\x22 x").chars = ["'1|(\x22 x'".toList] := by
  have hvalue : ¬ ∀ quote : Quote, quote.char ∈ "1|(\x22 x".toList := by
    intro h
    exact absurd (h .single) (by decide)
  have hchars : (literal "1|(\x22 x").chars = "'1|(\x22 x'".toList := by decide
  obtain ⟨hrun, htokens, -, -⟩ := run_betweenBlanks
    ⟨⟨none, ⟨-3, 0, 7⟩⟩, some .pipe, 5, 2, [⟨0, 1⟩]⟩ hvalue rfl "| trim".toList
  exact ⟨hrun, hchars ▸ htokens⟩

end Argument

end Directive
