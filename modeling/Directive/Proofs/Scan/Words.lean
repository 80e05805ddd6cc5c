import Directive.Proofs.Scan.Whole
import Directive.Proofs.Token.Words

/-!
# Scanning words

What words do to the context, outside quotes. A quoted run leaves it as it is and holds no
separator, whatever stands between the quotes. A run of plain characters opens no quote. Main facts:

* `Context.read_quoted`, `Context.whole_quoted`: a quoted run is passed over.
* `Context.quote_read_word`: a word leaves no quote open.
* `Context.closed_induction`: induction on the tokens of a text whose quotes close.
* `Context.read_tokens`, `Context.wholeWords_tokens`: such a text changes the context as its tokens
  do, and its tokens hold no separator if the text holds none.
-/

namespace Directive

namespace Context

/-- In a quote nothing but the same quote changes the context. -/
theorem feed_of_quote {context : Context} {quote : Quote} (hquote : context.quote = some quote)
    {c : Char} (hc : c ≠ quote.char) : context.feed c = context := by
  cases hsymbol : Symbol.ofChar? c with
  | none => exact feed_of_none hsymbol context
  | some symbol =>
    obtain rfl := Symbol.ofChar?_eq_some_iff.mp hsymbol
    rw [feed_char]
    cases symbol with
    | quote other =>
      have hne : other ≠ quote := fun h => hc (h ▸ rfl)
      simp [step, hquote, hne]
    | opening bracket => simp [step, hquote]
    | closing bracket => simp [step, hquote]
    | pipe => simp [step, hquote]

/-- In a quote a text without the same quote leaves the context as it is. -/
theorem read_of_quote {context : Context} {quote : Quote} (hquote : context.quote = some quote)
    {text : List Char} (htext : quote.char ∉ text) : context.read text = context :=
  read_of_feed fun c hc => feed_of_quote hquote fun h : c = quote.char => htext (h ▸ hc)

/-- In a quote a text without the same quote holds no separator. -/
theorem whole_of_quote {context : Context} {quote : Quote} (hquote : context.quote = some quote)
    {text : List Char} (htext : quote.char ∉ text) (before after : Option Char) :
    context.Whole before text after := by
  induction text generalizing before with
  | nil => exact trivial
  | cons c text ih =>
    have hc : c ≠ quote.char := fun h => htext (h ▸ List.mem_cons_self)
    -- a separator stands outside quotes
    have hsep : context.separates before c (text.head?.or after) = false := by
      rw [Bool.eq_false_iff, ne_eq, separates_iff]
      rintro ⟨-, -, -, rfl⟩
      cases hquote
    refine ⟨hsep, ?_⟩
    rw [feed_of_quote hquote hc]
    exact ih (fun h => htext (List.mem_cons_of_mem c h)) (some c)

/-- A quote met outside quotes opens. -/
theorem feed_quote {context : Context} (hquote : context.quote = none) (quote : Quote) :
    context.feed quote.char = { context with quote := some quote } := by
  rw [show quote.char = (Symbol.quote quote).char from rfl, feed_char]
  simp [step, hquote]

/-- The quote that is open closes. -/
theorem feed_same_quote {context : Context} {quote : Quote} (hquote : context.quote = some quote) :
    context.feed quote.char = { context with quote := none } := by
  rw [show quote.char = (Symbol.quote quote).char from rfl, feed_char]
  simp [step, hquote]

/-- Outside quotes a quoted run leaves the context as it is. -/
theorem read_quoted {context : Context} (hquote : context.quote = none) {quote : Quote}
    {inner : List Char} (hinner : quote.char ∉ inner) :
    context.read (quote.char :: (inner ++ [quote.char])) = context := by
  have hopen : Context.read { context with quote := some quote } inner
      = { context with quote := some quote } := read_of_quote rfl hinner
  rw [read_cons, feed_quote hquote, read_append, hopen, read_cons, read_nil, feed_same_quote rfl]
  cases context
  simp_all

/-- Outside quotes a quoted run holds no separator. -/
theorem whole_quoted {context : Context} (hquote : context.quote = none) {quote : Quote}
    {inner : List Char} (hinner : quote.char ∉ inner) (before after : Option Char) :
    context.Whole before (quote.char :: (inner ++ [quote.char])) after := by
  have hpipe : quote.char ≠ '|' := by cases quote <;> decide
  refine ⟨separates_of_ne hpipe, ?_⟩
  rw [feed_quote hquote, whole_append]
  exact ⟨whole_of_quote rfl hinner _ _, separates_of_ne hpipe, trivial⟩

/-- Outside quotes a run of plain characters opens no quote. -/
theorem quote_read_plain {context : Context} (hquote : context.quote = none) {text : List Char}
    (htext : ∀ c ∈ text, Token.isPlain c = true) : (context.read text).quote = none := by
  induction text generalizing context with
  | nil => exact hquote
  | cons c text ih =>
    have hc := (Token.isPlain_iff.mp (htext c List.mem_cons_self)).2
    refine ih ?_ fun d hd => htext d (List.mem_cons_of_mem c hd)
    rw [quote_feed, hquote]
    exact hc

/-- Outside quotes a word leaves no quote open. -/
theorem quote_read_word {context : Context} (hquote : context.quote = none) {word : List Char}
    (hword : Token.IsWord word) : (context.read word).quote = none := by
  rcases hword with hword | ⟨quote, inner, hinner, rfl⟩
  · exact quote_read_plain hquote hword.2
  · rw [read_quoted hquote hinner, hquote]

/-! ## Texts whose quotes close -/

/-- Induction on the tokens of a text that starts outside quotes and whose quotes close: no quote
of it stands for itself. -/
@[elab_as_elim]
theorem closed_induction {motive : Context → List Char → Prop}
    (nil : ∀ context, motive context [])
    (blank : ∀ context c rest, context.quote = none → Text.isBlank c = true →
      motive context rest → motive context (c :: rest))
    (bare : ∀ context word rest, context.quote = none → Token.IsBare word →
      (∀ c ∈ rest.head?, Token.isPlain c = false) → motive (context.read word) rest →
      motive context (word ++ rest))
    (quoted : ∀ context (quote : Quote) inner rest, context.quote = none → quote.char ∉ inner →
      motive context rest → motive context (quote.char :: (inner ++ quote.char :: rest)))
    {context : Context} {text : List Char} (hquote : context.quote = none)
    (hclosed : (context.read text).quote = none) : motive context text := by
  induction text using tokens_induction generalizing context with
  | nil => exact nil context
  | blank c rest hc ih =>
    have hfeed := feed_of_none (ofChar?_of_isBlank hc) context
    rw [read_cons, hfeed] at hclosed
    exact blank context c rest hquote hc (ih hquote hclosed)
  | bare word rest hword hrest ih =>
    rw [read_append] at hclosed
    exact bare context word rest hquote hword hrest
      (ih (quote_read_word hquote (Or.inl hword)) hclosed)
  | quoted quote inner rest hinner ih =>
    rw [Token.quoted_append, read_append, read_quoted hquote hinner] at hclosed
    exact quoted context quote inner rest hquote hinner (ih hquote hclosed)
  | unclosed quote rest hrest ih =>
    -- the quote is still open at the end of the text
    rw [read_cons, feed_quote hquote, read_of_quote rfl hrest] at hclosed
    cases hclosed

/-- A text whose quotes close changes the context as its tokens do, one after the other. -/
theorem read_tokens {context : Context} {text : List Char} (hquote : context.quote = none)
    (hclosed : (context.read text).quote = none) :
    context.read text = (tokens text).foldl read context := by
  refine closed_induction ?nil ?blank ?bare ?quoted hquote hclosed
  case nil =>
    intro context
    rw [tokens_nil]
    rfl
  case blank =>
    intro context c rest _ hc ih
    rw [tokens_cons_of_isBlank hc, read_cons, feed_of_none (ofChar?_of_isBlank hc), ih]
  case bare =>
    intro context word rest _ hword hrest ih
    rw [tokens_append_of_isBare hword hrest, read_append, ih, List.foldl_cons]
  case quoted =>
    intro context quote inner rest hquote hinner ih
    rw [tokens_quoted hinner, List.foldl_cons, read_quoted hquote hinner, ← ih,
      Token.quoted_append, read_append, read_quoted hquote hinner]

/-- No character of words that blanks keep apart is a separator. -/
def WholeWords (context : Context) : List (List Char) → Prop
  | [] => True
  | word :: words => context.Whole none word none ∧ (context.read word).WholeWords words

/-- The tokens of a text whose quotes close hold no separator if the text holds none. -/
theorem wholeWords_tokens {context : Context} {text : List Char} (hquote : context.quote = none)
    (hclosed : (context.read text).quote = none) (hwhole : context.Whole none text none) :
    context.WholeWords (tokens text) := by
  have hall : ∀ before : Option Char, before ≠ some '|' ∨ text.head? ≠ some '|' →
      context.Whole before text none → context.WholeWords (tokens text) := by
    refine closed_induction ?nil ?blank ?bare ?quoted hquote hclosed
    case nil =>
      intro context before _ _
      rw [tokens_nil]
      trivial
    case blank =>
      intro context c rest _ hc ih before _ hwhole
      have hpipe : some c ≠ some '|' := by simpa using Text.ne_pipe_of_isBlank hc
      rw [tokens_cons_of_isBlank hc]
      refine ih (some c) (Or.inl hpipe) ?_
      rw [← feed_of_none (ofChar?_of_isBlank hc) context]
      exact hwhole.2
    case bare =>
      intro context word rest _ hword hrest ih before hbefore hwhole
      obtain ⟨hfirst, hmore⟩ := whole_append.mp hwhole
      -- the run cannot be longer, so that no pipe follows it
      have hhead : rest.head? ≠ some '|' := fun h => by
        have hplain := hrest '|' h
        revert hplain
        decide
      rw [tokens_append_of_isBare hword hrest]
      refine ⟨?_, ih _ (Or.inr hhead) hmore⟩
      rw [Option.or_none] at hfirst
      refine (whole_before ?_).mp ((whole_after (Or.inl hhead)).mp hfirst)
      rwa [List.head?_append_of_ne_nil _ hword.1] at hbefore
    case quoted =>
      intro context quote inner rest hquote hinner ih before _ hwhole
      have hpipe : some quote.char ≠ some '|' := by cases quote <;> decide
      rw [Token.quoted_append, whole_append, read_quoted hquote hinner, ← List.cons_append,
        List.getLast?_concat, Option.some_or] at hwhole
      rw [tokens_quoted hinner]
      refine ⟨whole_quoted hquote hinner none none, ?_⟩
      rw [read_quoted hquote hinner]
      exact ih (some quote.char) (Or.inl hpipe) hwhole.2
  exact hall none (Or.inl (by simp)) hwhole

/-- Words change the context one after the other, and the blanks between them not at all. -/
theorem read_spaced (context : Context) (words : List (List Char)) :
    context.read (spaced words) = words.foldl read context := by
  induction words generalizing context with
  | nil => rfl
  | cons word words ih =>
    have hblank : context.feed ' ' = context := feed_of_none rfl context
    rw [spaced_cons, read_cons, hblank, read_append, ih, List.foldl_cons]

/-- Words with blanks between them leave no quote open. -/
theorem quote_read_spaced {context : Context} (hquote : context.quote = none)
    {words : List (List Char)} (hwords : ∀ word ∈ words, Token.IsWord word) :
    (context.read (spaced words)).quote = none := by
  rw [read_spaced]
  induction words generalizing context with
  | nil => exact hquote
  | cons word words ih =>
    exact ih (quote_read_word hquote (hwords word List.mem_cons_self))
      fun other hother => hwords other (List.mem_cons_of_mem word hother)

/-- A text of words holds no separator exactly when its words hold none. -/
theorem whole_spaced {context : Context} {before : Option Char} {words : List (List Char)} :
    context.Whole before (spaced words) none ↔ context.WholeWords words := by
  induction words generalizing context before with
  | nil => exact Iff.rfl
  | cons word words ih =>
    have hblank : context.feed ' ' = context := feed_of_none rfl context
    have hafter : (spaced words).head?.or none ≠ some '|' := by cases words <;> simp
    rw [spaced_cons, whole_cons, hblank, whole_append, ih, whole_after (Or.inl hafter),
      whole_before (Or.inl (by simp)), separates_of_ne (by decide)]
    exact ⟨fun h => h.2, fun h => ⟨rfl, h⟩⟩

end Context

end Directive
