import Directive.Proofs.Descriptor.RoundTrip
import Directive.Proofs.Scan.Pipes
import Mathlib.Algebra.Order.BigOperators.Group.List
import Mathlib.Algebra.Order.Group.Nat

/-!
# Segments that are written again

What becomes of a segment when the filter that it is gets written. Names are written as they were
read. A constant is written so that nothing in it is read as a symbol, also if it was read from a
run of plain characters with brackets and pipes in it: then its brackets no longer count. Main
facts:

* `Filter.pipes_chars_le`: no pipe outside quotes is added.
* `Filter.read_chars`, `Filter.isWhole_chars`: unless a bracket is hidden, the context changes as in
  the segment, and no pipe becomes a separator.
-/

namespace Directive

open Token

/-! ## Constants -/

/-- Whether a symbol is a bracket. -/
def Symbol.isBracket : Symbol → Bool
  | opening _ => true
  | closing _ => true
  | _ => false

namespace Argument

/-- Whether a bracket may be hidden by writing an argument: a constant that reads as one is written
between quotes if it holds a bracket. -/
def hidesBracket : Argument → Bool
  | literal value =>
    isConstant value.toList && value.toList.any fun c => (Symbol.ofChar? c).any Symbol.isBracket
  | dynamic _ => false

/-- A constant is written without symbols or as a quoted run. -/
theorem chars_literal_cases {value : String} (h : (literal value).WellFormed) :
    (∀ c ∈ (literal value).chars, Symbol.ofChar? c = none) ∨ IsQuoted (literal value).chars := by
  rw [chars_literal]
  split
  case isTrue hbare =>
    refine Or.inl fun c hc => ?_
    have hstands := List.all_eq_true.mp (Bool.and_eq_true_iff.mp hbare).2 c hc
    have hboth : Text.isBlank c = false ∧ Symbol.ofChar? c = none := by simpa using hstands
    exact hboth.2
  case isFalse => exact Or.inr (isQuoted_of_not_mem (quoteFor_not_mem h))

/-- Where no character is a symbol no character is a pipe. -/
theorem pipe_not_mem {text : List Char} (h : ∀ c ∈ text, Symbol.ofChar? c = none) :
    '|' ∉ text := by
  intro hmem
  have hnone := h '|' hmem
  cases hnone

/-- No pipe of a written constant is outside quotes. -/
theorem pipes_chars_literal {value : String} (h : (literal value).WellFormed) :
    pipes (literal value).chars = 0 := by
  rcases chars_literal_cases h with hnone | ⟨quote, inner, hinner, hchars⟩
  · exact pipes_of_not_mem (pipe_not_mem hnone)
  · rw [hchars, pipes_quoted hinner]

/-- Outside quotes a written constant leaves the context as it is. -/
theorem read_chars_literal {value : String} (h : (literal value).WellFormed) {context : Context}
    (hquote : context.quote = none) : context.read (literal value).chars = context := by
  rcases chars_literal_cases h with hnone | ⟨quote, inner, hinner, hchars⟩
  · exact Context.read_of_none hnone context
  · rw [hchars, Context.read_quoted hquote hinner]

/-- Outside quotes a written constant holds no separator. -/
theorem whole_chars_literal {value : String} (h : (literal value).WellFormed) {context : Context}
    (hquote : context.quote = none) : context.Whole none (literal value).chars none := by
  rcases chars_literal_cases h with hnone | ⟨quote, inner, hinner, hchars⟩
  · exact Context.whole_of_not_mem (pipe_not_mem hnone) context none none
  · rw [hchars]
    exact Context.whole_quoted hquote hinner none none

/-- A name is written as the token that it was read from. -/
theorem chars_of_ofToken_eq_dynamic {token : Token} {name : String}
    (h : ofToken token = dynamic name) : (dynamic name).chars = token := by
  unfold ofToken at h
  split at h
  · cases h
  · split at h
    · cases h
    · obtain rfl := Argument.dynamic.inj h
      exact String.toList_ofList

/-- Outside quotes a plain character that is no bracket leaves the context as it is. -/
theorem feed_of_isPlain {context : Context} (hquote : context.quote = none) {c : Char}
    (hplain : isPlain c = true) (hbracket : (Symbol.ofChar? c).any Symbol.isBracket = false) :
    context.feed c = context := by
  have hnone := (isPlain_iff.mp hplain).2
  unfold Context.feed
  cases hsymbol : Symbol.ofChar? c with
  | none => rfl
  | some symbol =>
    rw [← Symbol.char_of_ofChar? hsymbol, Quote.ofChar?_char_symbol] at hnone
    rw [hsymbol, Option.any_some] at hbracket
    cases symbol with
    | quote quote => cases hnone
    | opening bracket => cases hbracket
    | closing bracket => cases hbracket
    | pipe => simp [Context.step, hquote]

/-- Outside quotes a word that is read as a constant leaves the context as it is, unless it holds
a bracket. -/
theorem read_of_ofToken_eq_literal {token : Token} (hword : IsWord token) {value : String}
    (h : ofToken token = literal value) (hhides : (literal value).hidesBracket = false)
    {context : Context} (hquote : context.quote = none) : context.read token = context := by
  rcases hword with hbare | ⟨quote, inner, hinner, rfl⟩
  · rw [ofToken_of_isBare hbare] at h
    split at h
    case isFalse => cases h
    case isTrue hconstant =>
      obtain rfl := Argument.literal.inj h
      -- a run of plain characters holds no quote, and a pipe changes nothing
      have hbracket : ∀ c ∈ token, ((Symbol.ofChar? c).any Symbol.isBracket) = false := by
        simpa [hidesBracket, hconstant] using hhides
      exact Context.read_of_feed fun c hc =>
        feed_of_isPlain hquote (hbare.2 c hc) (hbracket c hc)
  · exact Context.read_quoted hquote hinner

/-! ## Words -/

/-- A word as it is written when it was read as an argument. -/
def rewrite (token : Token) : List Char :=
  (ofToken token).chars

theorem isWord_rewrite {token : Token} (h : IsWord token) : IsWord (rewrite token) :=
  isWord_chars (wellFormed_ofToken h)

/-- A word that names a value is written as it is, any other one as a constant. -/
theorem rewrite_cases {token : Token} (h : IsWord token) :
    rewrite token = token ∨ ∃ value, ofToken token = literal value ∧ (literal value).WellFormed
      ∧ rewrite token = (literal value).chars := by
  have hwell := wellFormed_ofToken h
  unfold rewrite
  cases hargument : ofToken token with
  | dynamic name => exact Or.inl (chars_of_ofToken_eq_dynamic hargument)
  | literal value =>
    rw [hargument] at hwell
    exact Or.inr ⟨value, rfl, hwell, rfl⟩

/-- A word that is written again has no more pipes outside quotes. -/
theorem pipes_rewrite_le {token : Token} (h : IsWord token) :
    pipes (rewrite token) ≤ pipes token := by
  rcases rewrite_cases h with hself | ⟨value, -, hwell, hchars⟩
  · rw [hself]
  · rw [hchars, pipes_chars_literal hwell]
    exact Nat.zero_le _

/-- A word that is written again changes the context as before, unless it hides a bracket. -/
theorem read_rewrite {token : Token} (h : IsWord token)
    (hhides : (ofToken token).hidesBracket = false) {context : Context}
    (hquote : context.quote = none) : context.read (rewrite token) = context.read token := by
  rcases rewrite_cases h with hself | ⟨value, hvalue, hwell, hchars⟩
  · rw [hself]
  · -- both the word and the constant leave the context as it is
    rw [hvalue] at hhides
    rw [hchars, read_chars_literal hwell hquote, read_of_ofToken_eq_literal h hvalue hhides hquote]

/-- A word that is written again holds no separator if it held none. -/
theorem whole_rewrite {token : Token} (h : IsWord token) {context : Context}
    (hquote : context.quote = none) (hwhole : context.Whole none token none) :
    context.Whole none (rewrite token) none := by
  rcases rewrite_cases h with hself | ⟨value, -, hwell, hchars⟩
  · rwa [hself]
  · rw [hchars]
    exact whole_chars_literal hwell hquote

/-- Words that are written again change the context as before, unless one hides a bracket. -/
theorem foldl_read_rewrite {tokens : List Token} (h : ∀ token ∈ tokens, IsWord token)
    (hhides : ∀ token ∈ tokens, (ofToken token).hidesBracket = false) {context : Context}
    (hquote : context.quote = none) :
    (tokens.map rewrite).foldl Context.read context = tokens.foldl Context.read context := by
  induction tokens generalizing context with
  | nil => rfl
  | cons token tokens ih =>
    obtain ⟨hword, hwords⟩ := List.forall_mem_cons.mp h
    obtain ⟨hhide, hhides⟩ := List.forall_mem_cons.mp hhides
    rw [List.map_cons, List.foldl_cons, List.foldl_cons, read_rewrite hword hhide hquote]
    exact ih hwords hhides (Context.quote_read_word hquote hword)

/-- Words that are written again hold no separator if they held none, unless one hides a bracket. -/
theorem wholeWords_rewrite {tokens : List Token} (h : ∀ token ∈ tokens, IsWord token)
    (hhides : ∀ token ∈ tokens, (ofToken token).hidesBracket = false) {context : Context}
    (hquote : context.quote = none) (hwhole : context.WholeWords tokens) :
    context.WholeWords (tokens.map rewrite) := by
  induction tokens generalizing context with
  | nil => trivial
  | cons token tokens ih =>
    obtain ⟨hword, hwords⟩ := List.forall_mem_cons.mp h
    obtain ⟨hhide, hhides⟩ := List.forall_mem_cons.mp hhides
    refine ⟨whole_rewrite hword hquote hwhole.1, ?_⟩
    rw [read_rewrite hword hhide hquote]
    exact ih hwords hhides (Context.quote_read_word hquote hword) hwhole.2

end Argument

/-! ## Segments -/

namespace Filter

/-- A filter that was read from a segment is written as the name and the other tokens again. -/
theorem chars_of_ofSegment? {segment : List Char} {filter : Filter}
    (h : ofSegment? segment = some filter) :
    ∃ args, tokens segment = filter.name.toList :: args
      ∧ (∀ token ∈ filter.name.toList :: args, IsWord token)
      ∧ filter.arguments = args.map Argument.ofToken
      ∧ filter.chars = filter.name.toList ++ spaced (args.map Argument.rewrite) := by
  obtain ⟨args, htokens, hargs⟩ := tokens_of_ofSegment? h
  have harguments : filter.arguments = args.map Argument.ofToken := by
    rw [arguments, hargs, getD_unlessEmpty]
  have hwords : ∀ token ∈ filter.name.toList :: args, IsWord token := fun token htoken =>
    isWord_of_mem_tokens (htokens ▸ htoken)
  refine ⟨args, htokens, hwords, harguments, ?_⟩
  rw [chars_eq, harguments, List.map_map]
  rfl

/-- A segment that is written again has no more pipes outside quotes. -/
theorem pipes_chars_le {segment : List Char} {filter : Filter}
    (h : ofSegment? segment = some filter)
    (hclosed : (Context.start.read segment).quote = none) : pipes filter.chars ≤ pipes segment := by
  obtain ⟨args, htokens, hwords, -, hchars⟩ := chars_of_ofSegment? h
  -- the name is written as it is, and each argument has no more pipes than its token
  obtain ⟨hname, hargs⟩ := List.forall_mem_cons.mp hwords
  have hrewrite : ∀ word ∈ args.map Argument.rewrite, IsWord word := by
    intro word hword
    obtain ⟨token, htoken, rfl⟩ := List.mem_map.mp hword
    exact Argument.isWord_rewrite (hargs token htoken)
  calc
    pipes filter.chars
        = pipes filter.name.toList + ((args.map Argument.rewrite).map pipes).sum := by
      rw [hchars, pipes_append (Context.quote_read_word rfl hname), pipes_spaced hrewrite]
    _ ≤ pipes filter.name.toList + (args.map pipes).sum := by
      rw [List.map_map]
      exact Nat.add_le_add_left
        (List.sum_le_sum fun token htoken => Argument.pipes_rewrite_le (hargs token htoken)) _
    _ = pipes segment := by
      rw [← sum_pipes_tokens hclosed, htokens, List.map_cons, List.sum_cons]

variable {segment : List Char} {filter : Filter}

/-- A segment that is written again changes the context as before, unless a bracket is hidden. -/
theorem read_chars (h : ofSegment? segment = some filter)
    (hclosed : (Context.start.read segment).quote = none)
    (hhides : ∀ argument ∈ filter.arguments, argument.hidesBracket = false) :
    Context.start.read filter.chars = Context.start.read segment := by
  obtain ⟨args, htokens, hwords, harguments, hchars⟩ := chars_of_ofSegment? h
  obtain ⟨hname, hargs⟩ := List.forall_mem_cons.mp hwords
  rw [harguments, List.forall_mem_map] at hhides
  rw [hchars, Context.read_append, Context.read_spaced, Context.read_tokens rfl hclosed, htokens,
    List.foldl_cons,
    Argument.foldl_read_rewrite hargs hhides (Context.quote_read_word rfl hname)]

/-- A segment that is written again holds no separator if it held none, unless a bracket is
hidden. -/
theorem isWhole_chars (h : ofSegment? segment = some filter)
    (hclosed : (Context.start.read segment).quote = none) (hwhole : IsWhole segment)
    (hhides : ∀ argument ∈ filter.arguments, argument.hidesBracket = false) :
    IsWhole filter.chars := by
  obtain ⟨args, htokens, hwords, harguments, hchars⟩ := chars_of_ofSegment? h
  obtain ⟨hname, hargs⟩ := List.forall_mem_cons.mp hwords
  rw [harguments, List.forall_mem_map] at hhides
  -- the tokens hold no separator where they stand in the segment
  have hall := Context.wholeWords_tokens rfl hclosed hwhole
  rw [htokens] at hall
  -- behind the name comes a blank or nothing
  have hafter : (spaced (args.map Argument.rewrite)).head?.or none ≠ some '|' := by
    cases args <;> simp
  rw [hchars, IsWhole, Context.whole_append, Context.whole_after (Or.inl hafter),
    Context.whole_spaced]
  exact ⟨hall.1,
    Argument.wholeWords_rewrite hargs hhides (Context.quote_read_word rfl hname) hall.2⟩

end Filter

end Directive
