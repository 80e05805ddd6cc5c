import Directive.Proofs.Scan.Parts
import Directive.Proofs.Token.Arguments
import Mathlib.Logic.Equiv.Defs

/-!
# Renaming quotes and brackets

The two quotes are treated alike, and so are the three kinds of brackets. A renaming permutes the
quotes and the kinds of brackets and leaves every other character as it is; reading a directive
commutes with it, step by step. Main facts:

* `Renaming.separates`, `Renaming.parts`: the separators stay where they are.
* `Renaming.tokens`: the tokens of a renamed text are the renamed tokens.
* `Descriptor.parse_rename`: a renamed directive says what the directive says, renamed.
-/

namespace Directive

open Text (isBlank)

/-- A permutation of the quotes and one of the kinds of brackets. -/
structure Renaming where
  /-- What becomes of each quote. -/
  quote : Equiv.Perm Quote
  /-- What becomes of each kind of brackets, its opener and its closer alike. -/
  bracket : Equiv.Perm Bracket

namespace Renaming

/-- What becomes of a symbol. -/
def symbol (r : Renaming) : Symbol → Symbol
  | .quote q => .quote (r.quote q)
  | .opening b => .opening (r.bracket b)
  | .closing b => .closing (r.bracket b)
  | .pipe => .pipe

/-- What becomes of a character: one that is no symbol stays. -/
def char (r : Renaming) (c : Char) : Char :=
  (Symbol.ofChar? c).elim c fun symbol => (r.symbol symbol).char

/-- What becomes of a text. -/
def text (r : Renaming) (text : List Char) : List Char :=
  text.map r.char

/-- What becomes of a string. -/
def string (r : Renaming) (s : String) : String :=
  String.ofList (r.text s.toList)

end Renaming

/-- The argument with its value renamed. -/
def Argument.rename (r : Renaming) : Argument → Argument
  | literal value => literal (r.string value)
  | dynamic name => dynamic (r.string name)

/-- The filter with its name and the values of its arguments renamed. -/
def Filter.rename (r : Renaming) (filter : Filter) : Filter :=
  ⟨r.string filter.name, filter.args.map (List.map (Argument.rename r))⟩

/-- The descriptor with its expression and its filters renamed. -/
def Descriptor.rename (r : Renaming) (descriptor : Descriptor) : Descriptor :=
  ⟨r.string descriptor.expression, descriptor.filters.map (List.map (Filter.rename r))⟩

namespace Renaming

variable (r : Renaming)

/-! ## Characters -/

theorem symbol_injective : Function.Injective r.symbol := by
  intro a b h
  cases a <;> cases b <;> simp_all [symbol]

theorem char_of_symbol (symbol : Symbol) : r.char symbol.char = (r.symbol symbol).char := by
  simp [char]

theorem char_of_none {c : Char} (h : Symbol.ofChar? c = none) : r.char c = c := by
  simp [char, h]

@[simp] theorem char_quote (quote : Quote) : r.char quote.char = (r.quote quote).char :=
  r.char_of_symbol (.quote quote)

/-- The symbol that a renamed character is. -/
@[simp] theorem ofChar?_char (c : Char) :
    Symbol.ofChar? (r.char c) = (Symbol.ofChar? c).map r.symbol := by
  cases h : Symbol.ofChar? c with
  | none => rw [char_of_none r h, h, Option.map_none]
  | some symbol => rw [char, h, Option.elim_some, Symbol.ofChar?_char, Option.map_some]

/-- Only one character becomes the renamed character of a symbol. -/
theorem char_eq_char_symbol_iff {c : Char} (symbol : Symbol) :
    r.char c = (r.symbol symbol).char ↔ c = symbol.char := by
  rw [← Symbol.ofChar?_eq_some_iff, ofChar?_char, Option.map_eq_some_iff,
    ← Symbol.ofChar?_eq_some_iff]
  constructor
  · rintro ⟨other, hother, h⟩
    rw [hother, r.symbol_injective h]
  · intro h
    exact ⟨symbol, h, rfl⟩

/-- A renamed quote is met in a renamed text where the quote is met in the text. -/
theorem char_quote_mem_text_iff {quote : Quote} {text : List Char} :
    (r.quote quote).char ∈ r.text text ↔ quote.char ∈ text := by
  have hiff (c : Char) : r.char c = (r.quote quote).char ↔ c = quote.char :=
    r.char_eq_char_symbol_iff (.quote quote)
  simp [Renaming.text, hiff]

theorem char_eq_pipe_iff {c : Char} : r.char c = '|' ↔ c = '|' :=
  r.char_eq_char_symbol_iff .pipe

/-- A test that no symbol passes is passed by the characters that passed it before. -/
theorem test_char (test : Char → Bool) (h : ∀ symbol : Symbol, test symbol.char = false)
    (c : Char) : test (r.char c) = test c := by
  cases hc : Symbol.ofChar? c with
  | none => rw [char_of_none r hc]
  | some symbol =>
    obtain rfl := Symbol.ofChar?_eq_some_iff.mp hc
    rw [char_of_symbol, h, h]

/-- Only a character itself becomes a character that is no symbol. -/
theorem char_eq_iff_of_none {c d : Char} (h : Symbol.ofChar? d = none) : r.char c = d ↔ c = d := by
  have hne (symbol : Symbol) : symbol.char ≠ d := by
    rintro rfl
    rw [Symbol.ofChar?_char] at h
    cases h
  simpa using r.test_char (fun c => decide (c = d)) (fun symbol => by simp [hne symbol]) c

/-- Blanks stay, and no other character becomes blank. -/
@[simp] theorem isBlank_char (c : Char) : isBlank (r.char c) = isBlank c :=
  r.test_char _ (by rintro (⟨_ | _⟩ | ⟨_ | _ | _⟩ | ⟨_ | _ | _⟩ | _) <;> decide) c

/-- Digits stay, and no other character becomes a digit. -/
theorem isDigit_char (c : Char) : Token.isDigit (r.char c) = Token.isDigit c :=
  r.test_char _ (by rintro (⟨_ | _⟩ | ⟨_ | _ | _⟩ | ⟨_ | _ | _⟩ | _) <;> decide) c

/-- Plain characters stay plain, though they may be brackets. -/
@[simp] theorem isPlain_char (c : Char) : Token.isPlain (r.char c) = Token.isPlain c := by
  rcases Token.blank_or_plain_or_quote c with h | h | ⟨quote, rfl⟩
  · rw [Token.isPlain_of_isBlank h, Token.isPlain_of_isBlank (by rwa [isBlank_char])]
  · have hquote : Quote.ofChar? (r.char c) = none := by
      rw [Option.eq_none_iff_forall_ne_some]
      intro quote hquote
      have hback : r.char c = (r.quote (r.quote.symm quote)).char := by
        rw [Equiv.apply_symm_apply]
        exact Quote.ofChar?_eq_some_iff.mp hquote
      exact Token.ne_char_of_isPlain h _
        ((r.char_eq_char_symbol_iff (.quote (r.quote.symm quote))).mp hback)
    rw [h, Token.isPlain_iff, isBlank_char]
    exact ⟨(Token.isPlain_iff.mp h).1, hquote⟩
  · rw [char_quote, Quote.isPlain_char, Quote.isPlain_char]

/-! ## Texts -/

@[simp] theorem text_nil : r.text [] = [] := rfl

@[simp] theorem text_cons (c : Char) (text : List Char) :
    r.text (c :: text) = r.char c :: r.text text := rfl

@[simp] theorem text_append (a b : List Char) : r.text (a ++ b) = r.text a ++ r.text b :=
  List.map_append

theorem string_ofList (text : List Char) :
    r.string (String.ofList text) = String.ofList (r.text text) := by
  rw [string, String.toList_ofList]

theorem dropWhile_text (text : List Char) :
    (r.text text).dropWhile isBlank = r.text (text.dropWhile isBlank) := by
  have hsame : isBlank ∘ r.char = isBlank := funext r.isBlank_char
  rw [Renaming.text, List.dropWhile_map, hsame, Renaming.text]

theorem reverse_text (text : List Char) : (r.text text).reverse = r.text text.reverse :=
  List.map_reverse.symm

/-- The blanks around a renamed text are those around the text. -/
theorem trim_text (text : List Char) : Text.trim (r.text text) = r.text (Text.trim text) := by
  simp only [Text.trim, Text.trimEnd, Text.trimStart, dropWhile_text, reverse_text]

/-! ## Contexts -/

/-- The depths of a nesting, each found at its renamed kind of brackets. -/
def nesting (nesting : Nesting) : Nesting :=
  ⟨nesting.depth (r.bracket.symm .paren), nesting.depth (r.bracket.symm .square),
    nesting.depth (r.bracket.symm .curly)⟩

/-- The context that a renamed text leads to. -/
def context (context : Context) : Context :=
  ⟨context.quote.map r.quote, r.nesting context.nesting⟩

theorem depth_nesting (nesting : Nesting) (bracket : Bracket) :
    (r.nesting nesting).depth bracket = nesting.depth (r.bracket.symm bracket) := by
  cases bracket <;> rfl

theorem nesting_add (nesting : Nesting) (bracket : Bracket) (change : Int32) :
    r.nesting (nesting.add bracket change)
      = (r.nesting nesting).add (r.bracket bracket) change := by
  apply Nesting.eq_of_depth
  intro other
  simp only [depth_nesting, Nesting.depth_add, Equiv.eq_symm_apply]

theorem context_start : r.context .start = .start := by
  apply Context.eq_start_iff.mpr
  refine ⟨rfl, Context.nesting_eq_flat_iff.mpr fun bracket => ?_⟩
  exact (r.depth_nesting .flat bracket).trans (Context.nesting_eq_flat_iff.mp rfl _)

/-- Nothing is open in a renamed context exactly if nothing is open in the context. -/
theorem context_eq_start_iff {context : Context} :
    r.context context = .start ↔ context = .start := by
  constructor
  · intro h
    obtain ⟨hquote, hnesting⟩ := Context.eq_start_iff.mp h
    refine Context.eq_start_iff.mpr ⟨Option.map_eq_none_iff.mp hquote, ?_⟩
    refine Context.nesting_eq_flat_iff.mpr fun bracket => ?_
    have hdepth := Context.nesting_eq_flat_iff.mp hnesting (r.bracket bracket)
    rwa [Renaming.context, depth_nesting, Equiv.symm_apply_apply] at hdepth
  · rintro rfl
    exact r.context_start

/-- One symbol changes a renamed context as it changes the context, for each quote and bracket. -/
theorem context_step (context : Context) (symbol : Symbol) :
    r.context (context.step symbol) = (r.context context).step (r.symbol symbol) := by
  obtain ⟨quote, nesting⟩ := context
  -- outside of quotes the symbol decides, inside only the quote that is open
  cases quote with
  | none => cases symbol <;> simp [Renaming.context, Context.step, Renaming.symbol, nesting_add]
  | some q =>
    cases symbol with
    | quote other =>
      by_cases h : other = q <;> simp [Renaming.context, Context.step, Renaming.symbol, h]
    | _ => rfl

theorem context_feed (context : Context) (c : Char) :
    r.context (context.feed c) = (r.context context).feed (r.char c) := by
  cases h : Symbol.ofChar? c with
  | none =>
    rw [char_of_none r h, Context.feed_of_none h, Context.feed_of_none h]
  | some symbol =>
    obtain rfl := Symbol.ofChar?_eq_some_iff.mp h
    rw [char_of_symbol, Context.feed_char, Context.feed_char, context_step]

/-! ## Parts -/

/-- A renamed character is a separator where the character is one. -/
theorem separates (context : Context) (before : Option Char) (c : Char) (after : Option Char) :
    (r.context context).separates (before.map r.char) (r.char c) (after.map r.char)
      = context.separates before c after := by
  have hpipe (neighbour : Option Char) :
      neighbour.map r.char = some '|' ↔ neighbour = some '|' := by
    cases neighbour <;> simp [char_eq_pipe_iff]
  rw [Bool.eq_iff_iff, Context.separates_iff, Context.separates_iff, char_eq_pipe_iff, ne_eq,
    ne_eq, hpipe, hpipe, context_eq_start_iff]

theorem glue_text (parts others : List (List Char)) :
    glue (parts.map r.text) (others.map r.text) = (glue parts others).map r.text := by
  induction parts with
  | nil => rfl
  | cons part parts ih =>
    cases parts with
    | nil => cases others <;> simp [glue]
    | cons next parts =>
      have hmap : (next :: parts).map r.text ≠ [] := by simp
      rw [List.map_cons, glue_cons hmap, ih, glue_cons (List.cons_ne_nil next parts), List.map_cons]

/-- The parts of a renamed text are the renamed parts. -/
theorem context_parts (context : Context) (before : Option Char) (text : List Char)
    (after : Option Char) :
    (r.context context).parts (before.map r.char) (r.text text) (after.map r.char)
      = (context.parts before text after).map r.text := by
  induction text generalizing context before with
  | nil => rfl
  | cons c text ih =>
    have hnext : (r.text text).head?.or (after.map r.char) = (text.head?.or after).map r.char := by
      cases text <;> rfl
    have hmore := ih (context.feed c) (some c)
    rw [context_feed, Option.map_some] at hmore
    rw [text_cons, Context.parts_cons, Context.parts_cons, hnext, separates, hmore, ← glue_text]
    split <;> rfl

theorem parts (text : List Char) :
    Directive.parts (r.text text) = (Directive.parts text).map r.text := by
  have h := r.context_parts .start none text none
  rwa [context_start] at h

/-! ## Tokens -/

theorem isBare_text {word : List Char} (h : Token.IsBare word) : Token.IsBare (r.text word) := by
  obtain ⟨hne, hplain⟩ := h
  refine ⟨by simpa [Renaming.text] using hne, fun c hc => ?_⟩
  obtain ⟨d, hd, rfl⟩ := List.mem_map.mp hc
  rw [isPlain_char, hplain d hd]

/-- The tokens of a renamed text are the renamed tokens. -/
theorem tokens (text : List Char) :
    Directive.tokens (r.text text) = (Directive.tokens text).map r.text := by
  induction text using tokens_induction with
  | nil => rw [text_nil, tokens_nil, List.map_nil]
  | blank c rest hc ih =>
    have hrenamed : isBlank (r.char c) = true := by rwa [isBlank_char]
    rw [text_cons, tokens_cons_of_isBlank hrenamed, ih, tokens_cons_of_isBlank hc]
  | bare word rest hword hrest ih =>
    have hrenamed : ∀ c ∈ (r.text rest).head?, Token.isPlain c = false := by
      intro c hc
      cases rest with
      | nil => cases hc
      | cons d rest =>
        obtain rfl : r.char d = c := by simpa using hc
        rw [isPlain_char, hrest d rfl]
    rw [text_append, tokens_append_of_isBare (r.isBare_text hword) hrenamed, ih,
      tokens_append_of_isBare hword hrest, List.map_cons]
  | quoted quote inner rest hinner ih =>
    -- the renamed quote closes where the quote does, since no other character becomes it
    have hrenamed := mt r.char_quote_mem_text_iff.mp hinner
    rw [text_cons, text_append, text_cons, char_quote, tokens_quoted hrenamed, ih,
      tokens_quoted hinner]
    simp
  | unclosed quote rest hrest ih =>
    have hrenamed := mt r.char_quote_mem_text_iff.mp hrest
    rw [text_cons, char_quote, tokens_unclosed hrenamed, ih, tokens_unclosed hrest]

/-- A word reads as a constant after a renaming if it did so before. -/
theorem isConstant_text (token : Token) :
    Token.isConstant (r.text token) = Token.isConstant token := by
  have hin : r.text token = ['i', 'n'] ↔ token = ['i', 'n'] := by
    have hi (c : Char) : r.char c = 'i' ↔ c = 'i' := r.char_eq_iff_of_none rfl
    have hn (c : Char) : r.char c = 'n' ↔ c = 'n' := r.char_eq_iff_of_none rfl
    match token with
    | [] | [_] | [_, _] | _ :: _ :: _ :: _ => simp [hi, hn]
  have hminus (c : Char) : r.char c = '-' ↔ c = '-' := r.char_eq_iff_of_none rfl
  match token with
  | [] => rfl
  | [c] => simp [Token.isConstant, isDigit_char]
  | c :: d :: rest =>
    rw [text_cons, text_cons] at hin ⊢
    simp only [Token.isConstant_cons_cons, hin, hminus, isDigit_char]

end Renaming

namespace Argument

/-- The argument that a renamed word is. -/
theorem ofToken_text (r : Renaming) {token : Token} (h : Token.IsWord token) :
    ofToken (r.text token) = (ofToken token).rename r := by
  rcases h with h | ⟨quote, inner, -, rfl⟩
  · rw [ofToken_of_isBare h, ofToken_of_isBare (r.isBare_text h), r.isConstant_text]
    split <;> rw [rename, r.string_ofList]
  · rw [r.text_cons, r.text_append, r.text_cons, r.char_quote, r.text_nil, ofToken_quoted,
      ofToken_quoted, rename, r.string_ofList]

end Argument

theorem unlessEmpty_map {α β : Type} (f : α → β) (items : List α) :
    unlessEmpty (items.map f) = (unlessEmpty items).map (List.map f) := by
  cases items <;> rfl

/-- The filter that a renamed segment is. -/
theorem Filter.ofSegment?_text (r : Renaming) (segment : List Char) :
    ofSegment? (r.text segment) = (ofSegment? segment).map (Filter.rename r) := by
  have hwords : ∀ token ∈ tokens (Text.trim segment), Token.IsWord token :=
    fun _ => isWord_of_mem_tokens
  rw [ofSegment?, ofSegment?, r.trim_text, r.tokens]
  cases htokens : tokens (Text.trim segment) with
  | nil => rfl
  | cons name args =>
    rw [htokens] at hwords
    have hargs : (args.map r.text).map Argument.ofToken
        = (args.map Argument.ofToken).map (Argument.rename r) := by
      rw [List.map_map, List.map_map]
      exact List.map_congr_left fun token htoken =>
        Argument.ofToken_text r (hwords token (List.mem_cons_of_mem name htoken))
    simp only [List.map_cons, Option.map_some, rename, hargs, unlessEmpty_map, r.string_ofList]

namespace Descriptor

/-- What renamed parts say. -/
theorem ofParts_text (r : Renaming) {parts : List (List Char)} (h : parts ≠ []) :
    ofParts (parts.map r.text) = (ofParts parts).rename r := by
  cases parts with
  | nil => exact absurd rfl h
  | cons expression segments =>
    have hsegments : (segments.map r.text).filterMap Filter.ofSegment?
        = (segments.filterMap Filter.ofSegment?).map (Filter.rename r) := by
      rw [List.filterMap_map, List.map_filterMap]
      exact List.filterMap_congr fun segment _ => Filter.ofSegment?_text r segment
    rw [List.map_cons, ofParts, ofParts, hsegments, r.trim_text, unlessEmpty_map, rename,
      r.string_ofList]

/-- Quotes and brackets are treated alike: what a directive says after a renaming, which may swap
the two quotes and permute the three pairs of brackets, is what it says without it, with the
expression, the names of the filters and the values of their arguments renamed. The same arguments
are constants, and the same lists are missing. -/
theorem parse_rename (r : Renaming) (raw : String) :
    parse (r.string raw) = (parse raw).rename r := by
  rw [parse_eq_ofParts, parse_eq_ofParts, Renaming.string, String.toList_ofList, r.parts,
    ofParts_text r (parts_ne_nil raw.toList)]

end Descriptor

end Directive
