import Directive.Proofs.Token.Words

/-!
# The one way to cut a text into tokens

A text can be cut into its tokens and the characters between them. A run of plain characters has to
be as long as it can be, and only blank characters and quotes that do not come back may lie in no
token. Whether a quote comes back depends on all of the text behind it, and yet there is one such
cut for each text, and its tokens are those that are read from left to right. Main facts:

* `tokens_spelling`: however a text is cut, its tokens are the ones that are read.
* `exists_fit`: every text can be cut.
* `tokens_eq_iff`: so the tokens of a text are known from what they are.
-/

namespace Directive

open Text (isBlank)
open Token

/-! ## Lexemes -/

/-- A piece of a text. -/
inductive Lexeme where
  /-- A token. -/
  | token (run : Token)
  /-- A character that lies in no token. -/
  | gap (c : Char)

namespace Lexeme

/-- The characters of a piece. -/
def chars : Lexeme → List Char
  | token run => run
  | gap c => [c]

/-- The token that a piece is. -/
def token? : Lexeme → Option Token
  | token run => some run
  | gap _ => none

/-- What a piece has to be like between the texts before and behind it. A token is a text in quotes
of a kind that it does not hold, or a run of plain characters with no plain character directly
before or behind it. A character of no token is blank, or a quote that is not met again. -/
def Fits (before behind : List Char) : Lexeme → Prop
  | token run => IsQuoted run
    ∨ IsBare run ∧ (∀ c ∈ before.getLast?, isPlain c = false)
      ∧ ∀ c ∈ behind.head?, isPlain c = false
  | gap c => isBlank c = true ∨ ∃ quote : Quote, c = quote.char ∧ quote.char ∉ behind

end Lexeme

/-- The text of several pieces. -/
def spelling (lexemes : List Lexeme) : List Char :=
  lexemes.flatMap Lexeme.chars

@[simp] theorem spelling_nil : spelling [] = [] := rfl

@[simp] theorem spelling_cons (lexeme : Lexeme) (lexemes : List Lexeme) :
    spelling (lexeme :: lexemes) = lexeme.chars ++ spelling lexemes := rfl

/-- Each piece fits between the text before it, which starts with `lead`, and the text behind it. -/
def Fit (lead : List Char) (lexemes : List Lexeme) : Prop :=
  ∀ before lexeme behind, lexemes = before ++ lexeme :: behind →
    lexeme.Fits (lead ++ spelling before) (spelling behind)

theorem fit_nil (lead : List Char) : Fit lead [] := by
  intro before lexeme behind h
  cases before <;> cases h

/-- Pieces fit if the first one does, and the others do behind it. -/
theorem fit_cons {lead : List Char} {lexeme : Lexeme} {lexemes : List Lexeme} :
    Fit lead (lexeme :: lexemes)
      ↔ lexeme.Fits lead (spelling lexemes) ∧ Fit (lead ++ lexeme.chars) lexemes := by
  constructor
  · intro h
    refine ⟨?_, fun before other behind hother => ?_⟩
    · have hfirst := h [] lexeme lexemes rfl
      rwa [spelling_nil, List.append_nil] at hfirst
    · subst hother
      have hlater := h (lexeme :: before) other behind rfl
      rwa [spelling_cons, ← List.append_assoc] at hlater
  · rintro ⟨hfirst, hmore⟩ before other behind h
    cases before with
    | nil =>
      obtain ⟨rfl, rfl⟩ := List.cons.inj h
      rwa [spelling_nil, List.append_nil]
    | cons first before =>
      obtain ⟨rfl, rfl⟩ := List.cons.inj h
      rw [spelling_cons, ← List.append_assoc]
      exact hmore before other behind rfl

/-! ## Every cut has the same tokens -/

/-- The tokens of a text that has been cut are the tokens of the cut. -/
theorem tokens_spelling (lead : List Char) {lexemes : List Lexeme} (h : Fit lead lexemes) :
    tokens (spelling lexemes) = lexemes.filterMap Lexeme.token? := by
  -- reading goes from left to right, so that only what stands behind a run matters to it
  induction lexemes generalizing lead with
  | nil => exact tokens_nil
  | cons lexeme lexemes ih =>
    obtain ⟨hfirst, hmore⟩ := fit_cons.mp h
    have htokens := ih _ hmore
    cases lexeme with
    | gap c =>
      change tokens (c :: spelling lexemes) = lexemes.filterMap Lexeme.token?
      rcases hfirst with hblank | ⟨quote, rfl, hquote⟩
      · rw [tokens_cons_of_isBlank hblank, htokens]
      · rw [tokens_unclosed hquote, htokens]
    | token run =>
      change tokens (run ++ spelling lexemes) = run :: lexemes.filterMap Lexeme.token?
      rcases hfirst with ⟨quote, inner, hinner, rfl⟩ | ⟨hbare, -, hbehind⟩
      · rw [← quoted_append, tokens_quoted hinner, htokens]
      · rw [tokens_append_of_isBare hbare hbehind, htokens]

/-! ## Every text can be cut -/

/-- No run of plain characters goes on from one text to the next. -/
def Apart (lead text : List Char) : Prop :=
  ∀ c ∈ lead.getLast?, isPlain c = true → ∀ d ∈ text.head?, isPlain d = false

theorem apart_nil (text : List Char) : Apart [] text := by
  intro c hc
  cases hc

/-- No run goes on behind a character that is not plain. -/
theorem apart_concat {c : Char} (hc : isPlain c = false) (lead text : List Char) :
    Apart (lead ++ [c]) text := by
  intro d hd hplain
  rw [List.getLast?_concat] at hd
  obtain rfl := Option.some.inj hd
  rw [hc] at hplain
  cases hplain

/-- A text that no run goes on in can be cut into its tokens and what lies between them. -/
theorem exists_fit (lead text : List Char) (h : Apart lead text) :
    ∃ lexemes, spelling lexemes = text ∧ lexemes.filterMap Lexeme.token? = tokens text
      ∧ Fit lead lexemes := by
  -- each piece is cut off where the reader stops, and then belongs to what stands before the others
  induction text using tokens_induction generalizing lead with
  | nil => exact ⟨[], rfl, tokens_nil.symm, fit_nil lead⟩
  | blank c rest hc ih =>
    obtain ⟨lexemes, rfl, htokens, hfit⟩ := ih _ (apart_concat (isPlain_of_isBlank hc) lead rest)
    refine ⟨.gap c :: lexemes, rfl, ?_, fit_cons.mpr ⟨Or.inl hc, hfit⟩⟩
    rw [tokens_cons_of_isBlank hc, ← htokens]
    rfl
  | bare word rest hword hrest ih =>
    obtain ⟨lexemes, rfl, htokens, hfit⟩ := ih (lead ++ word) fun _ _ _ => hrest
    -- the run starts with a plain character, so that what stands before it ends with none
    have hbefore : ∀ c ∈ lead.getLast?, isPlain c = false := by
      intro c hc
      obtain ⟨d, word, rfl⟩ := List.exists_cons_of_ne_nil hword.1
      have hd : isPlain d = true := hword.2 d List.mem_cons_self
      cases hplain : isPlain c with
      | false => rfl
      | true => rw [← hd, h c hc hplain d rfl]
    refine ⟨.token word :: lexemes, rfl, ?_,
      fit_cons.mpr ⟨Or.inr ⟨hword, hbefore, hrest⟩, hfit⟩⟩
    rw [tokens_append_of_isBare hword hrest, ← htokens]
    rfl
  | quoted quote inner rest hinner ih =>
    have hlead : lead ++ quote.char :: (inner ++ [quote.char])
        = lead ++ quote.char :: inner ++ [quote.char] := by simp
    have hapart : Apart (lead ++ quote.char :: (inner ++ [quote.char])) rest := by
      rw [hlead]
      exact apart_concat quote.isPlain_char _ rest
    obtain ⟨lexemes, rfl, htokens, hfit⟩ := ih _ hapart
    refine ⟨.token (quote.char :: (inner ++ [quote.char])) :: lexemes,
      (quoted_append quote inner _).symm, ?_,
      fit_cons.mpr ⟨Or.inl (isQuoted_of_not_mem hinner), hfit⟩⟩
    rw [tokens_quoted hinner, ← htokens]
    rfl
  | unclosed quote rest hrest ih =>
    obtain ⟨lexemes, rfl, htokens, hfit⟩ := ih _ (apart_concat quote.isPlain_char lead rest)
    refine ⟨.gap quote.char :: lexemes, rfl, ?_,
      fit_cons.mpr ⟨Or.inr ⟨quote, rfl, hrest⟩, hfit⟩⟩
    rw [tokens_unclosed hrest, ← htokens]
    rfl

/-- The tokens of a text are the only ones that it can be cut into: each of them is a text in quotes
of a kind that it does not hold, or a run of plain characters that cannot be longer, and all other
characters are blank or quotes that are not met again. -/
theorem tokens_eq_iff (text : List Char) (found : List Token) :
    tokens text = found ↔
      ∃ lexemes, spelling lexemes = text ∧ lexemes.filterMap Lexeme.token? = found
        ∧ ∀ before lexeme behind, lexemes = before ++ lexeme :: behind →
          lexeme.Fits (spelling before) (spelling behind) := by
  constructor
  · rintro rfl
    exact exists_fit [] text (apart_nil text)
  · rintro ⟨lexemes, rfl, rfl, hfits⟩
    exact tokens_spelling [] hfits

/-- A quote that is met again inside a text in other quotes is closed there, and its end is then a
quote that does not close. -/
example : tokens "a'b\"c'd\"".toList = ["a".toList, "'b\"c'".toList, "d".toList] := by
  decide +kernel

end Directive
