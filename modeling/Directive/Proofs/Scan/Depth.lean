import Directive.Context
import Mathlib.Algebra.Ring.Nat
import Mathlib.Data.List.Basic

/-!
# Quotes and depths after a text

The context that a text leads to, read off its characters. Main facts:

* `Context.quote_read`: the open quote, by the rule for quotes alone.
* `Context.depth_read`: the depth in a kind of bracket is the number of its openers less the number
  of its closers, among the characters outside quotes.
* `Context.read_start_eq_start_iff`: no quote and no bracket is open exactly when the quotes are
  closed and the openers and closers are equally many, for a text short enough to be counted.
-/

namespace Directive

/-! ## Quotes -/

/-- The quote that is open after a character: outside quotes a quote opens, and only the same quote
closes it. -/
def Quote.follow (quote : Option Quote) (c : Char) : Option Quote :=
  match quote with
  | none => ofChar? c
  | some q => if ofChar? c = some q then none else some q

/-- The quote that is open after a text. -/
def openQuote (text : List Char) : Option Quote :=
  text.foldl Quote.follow none

/-- The characters of a text that stand outside quotes, if `quote` is open before the text. -/
def unquotedAfter (quote : Option Quote) : List Char → List Char
  | [] => []
  | c :: text =>
    if quote = none then c :: unquotedAfter (Quote.follow quote c) text
    else unquotedAfter (Quote.follow quote c) text

/-- The characters of a text that stand outside quotes. -/
def unquoted (text : List Char) : List Char :=
  unquotedAfter none text

theorem length_unquotedAfter_le (quote : Option Quote) (text : List Char) :
    (unquotedAfter quote text).length ≤ text.length := by
  induction text generalizing quote with
  | nil => exact Nat.le_refl 0
  | cons c text ih =>
    have hle := ih (Quote.follow quote c)
    unfold unquotedAfter
    split <;> simp only [List.length_cons] <;> omega

/-- The quote of a character, as an equation on the character. -/
theorem Quote.ofChar?_eq_some_iff {c : Char} {quote : Quote} :
    ofChar? c = some quote ↔ c = quote.char := by
  constructor
  · intro h
    exact (char_of_ofChar? h).symm
  · rintro rfl
    exact ofChar?_char quote

/-- The symbol of a character, as an equation on the character. -/
theorem Symbol.ofChar?_eq_some_iff {c : Char} {symbol : Symbol} :
    ofChar? c = some symbol ↔ c = symbol.char := by
  constructor
  · intro h
    exact (char_of_ofChar? h).symm
  · rintro rfl
    exact ofChar?_char symbol

/-- A character that is no symbol is no quote. -/
theorem Quote.ofChar?_eq_none_of_symbol {c : Char} (h : Symbol.ofChar? c = none) :
    ofChar? c = none := by
  cases hquote : ofChar? c with
  | none => rfl
  | some quote =>
    have hsymbol : Symbol.ofChar? c = some (.quote quote) :=
      Symbol.ofChar?_eq_some_iff.mpr (ofChar?_eq_some_iff.mp hquote)
    rw [h] at hsymbol
    cases hsymbol

/-- The quote that a symbol is. -/
theorem Quote.ofChar?_char_symbol (symbol : Symbol) :
    ofChar? symbol.char = match symbol with | .quote quote => some quote | _ => none := by
  rcases symbol with ⟨_ | _⟩ | ⟨_ | _ | _⟩ | ⟨_ | _ | _⟩ | _ <;> rfl

namespace Context

/-- The context after a character. -/
def feed (context : Context) (c : Char) : Context :=
  (Symbol.ofChar? c).elim context context.step

/-- The context after a text. -/
def read (context : Context) (text : List Char) : Context :=
  text.foldl feed context

@[simp] theorem read_nil (context : Context) : context.read [] = context := rfl

@[simp] theorem read_cons (context : Context) (c : Char) (text : List Char) :
    context.read (c :: text) = (context.feed c).read text := rfl

@[simp] theorem read_append (context : Context) (a b : List Char) :
    context.read (a ++ b) = (context.read a).read b :=
  List.foldl_append

/-- Characters that leave the context as it is do so together. -/
theorem read_of_feed {context : Context} {text : List Char}
    (h : ∀ c ∈ text, context.feed c = context) : context.read text = context := by
  induction text with
  | nil => rfl
  | cons c text ih =>
    rw [read_cons, h c List.mem_cons_self]
    exact ih fun d hd => h d (List.mem_cons_of_mem c hd)

/-- A character that is no symbol leaves the context as it is. -/
theorem feed_of_none {c : Char} (h : Symbol.ofChar? c = none) (context : Context) :
    context.feed c = context := by
  simp [feed, h]

@[simp] theorem feed_char (context : Context) (symbol : Symbol) :
    context.feed symbol.char = context.step symbol := by
  simp [feed]

/-- The open quote changes by the rule for quotes. -/
theorem quote_feed (context : Context) (c : Char) :
    (context.feed c).quote = Quote.follow context.quote c := by
  obtain ⟨quote, nesting⟩ := context
  cases hsymbol : Symbol.ofChar? c with
  | none =>
    have hquote := Quote.ofChar?_eq_none_of_symbol hsymbol
    rw [feed_of_none hsymbol]
    cases quote <;> simp [Quote.follow, hquote]
  | some symbol =>
    obtain rfl := Symbol.ofChar?_eq_some_iff.mp hsymbol
    rw [feed_char]
    cases quote with
    | none => cases symbol <;> simp [step, Quote.follow, Quote.ofChar?_char_symbol]
    | some q =>
      cases symbol with
      | quote r => by_cases h : r = q <;> simp [step, Quote.follow, Quote.ofChar?_char_symbol, h]
      | _ => simp [step, Quote.follow, Quote.ofChar?_char_symbol]

/-- The quote that is open after a text. -/
theorem quote_read (context : Context) (text : List Char) :
    (context.read text).quote = text.foldl Quote.follow context.quote := by
  induction text generalizing context with
  | nil => rfl
  | cons c text ih => rw [read_cons, ih, quote_feed, List.foldl_cons]

end Context

/-! ## Depths -/

namespace Bracket

/-- How many more openers than closers of a kind there are in a text. -/
def balance (bracket : Bracket) (text : List Char) : Int :=
  text.count bracket.opener - text.count bracket.closer

@[simp] theorem balance_nil (bracket : Bracket) : bracket.balance [] = 0 := rfl

theorem balance_cons (bracket : Bracket) (c : Char) (text : List Char) :
    bracket.balance (c :: text) = bracket.balance [c] + bracket.balance text := by
  have hcount (x : Char) : (c :: text).count x = [c].count x + text.count x := by
    rw [← List.count_append, List.singleton_append]
  simp only [balance, hcount]
  omega

theorem balance_eq_zero_iff {bracket : Bracket} {text : List Char} :
    bracket.balance text = 0 ↔ text.count bracket.opener = text.count bracket.closer := by
  unfold balance
  omega

/-- The balance is no further from zero than the text is long. -/
theorem balance_bounds (bracket : Bracket) (text : List Char) :
    -(text.length : Int) ≤ bracket.balance text ∧ bracket.balance text ≤ text.length := by
  have hopener := List.count_le_length (a := bracket.opener) (l := text)
  have hcloser := List.count_le_length (a := bracket.closer) (l := text)
  unfold balance
  omega

/-- The balance of a symbol. -/
theorem balance_char (bracket : Bracket) (symbol : Symbol) :
    bracket.balance [symbol.char] = match symbol with
      | .opening b => if b = bracket then 1 else 0
      | .closing b => if b = bracket then -1 else 0
      | _ => 0 := by
  rcases symbol with ⟨_ | _⟩ | ⟨_ | _ | _⟩ | ⟨_ | _ | _⟩ | _ <;> cases bracket <;> rfl

/-- A character that is no symbol has no balance. -/
theorem balance_of_none {c : Char} (h : Symbol.ofChar? c = none) (bracket : Bracket) :
    bracket.balance [c] = 0 := by
  have hne (symbol : Symbol) : c ≠ symbol.char := fun hc => by
    rw [Symbol.ofChar?_eq_some_iff.mpr hc] at h
    cases h
  -- a bracket is a symbol
  have hopener : c ≠ bracket.opener := hne (.opening bracket)
  have hcloser : c ≠ bracket.closer := hne (.closing bracket)
  simp [balance, hopener, hcloser]

end Bracket

/-- The depths are all there is to a nesting. -/
theorem Nesting.eq_of_depth {nesting other : Nesting}
    (h : ∀ bracket, nesting.depth bracket = other.depth bracket) : nesting = other := by
  obtain ⟨paren, square, curly⟩ := nesting
  have hparen : paren = other.paren := h .paren
  have hsquare : square = other.square := h .square
  have hcurly : curly = other.curly := h .curly
  rw [hparen, hsquare, hcurly]

/-- A change of one depth leaves the others as they are. -/
theorem Nesting.depth_add (nesting : Nesting) (changed bracket : Bracket) (change : Int32) :
    (nesting.add changed change).depth bracket
      = nesting.depth bracket + (if changed = bracket then change else 0) := by
  cases changed <;> cases bracket <;> simp [add, depth]

namespace Context

/-- Outside quotes a character changes the depths by its own balance, inside quotes not at all. -/
theorem depth_feed (context : Context) (c : Char) (bracket : Bracket) :
    (context.feed c).nesting.depth bracket
      = context.nesting.depth bracket
        + (if context.quote = none then Int32.ofInt (bracket.balance [c]) else 0) := by
  obtain ⟨quote, nesting⟩ := context
  cases hsymbol : Symbol.ofChar? c with
  | none =>
    rw [feed_of_none hsymbol, Bracket.balance_of_none hsymbol]
    simp
  | some symbol =>
    obtain rfl := Symbol.ofChar?_eq_some_iff.mp hsymbol
    rw [feed_char, Bracket.balance_char]
    cases quote with
    | none =>
      cases symbol with
      | quote q => simp [step]
      | opening b => by_cases h : b = bracket <;> simp [step, Nesting.depth_add, h]
      | closing b => by_cases h : b = bracket <;> simp [step, Nesting.depth_add, h]
      | pipe => simp [step]
    | some q =>
      cases symbol with
      | quote r => by_cases h : r = q <;> simp [step, h]
      | _ => simp [step]

/-- The depth after a text: the openers less the closers outside quotes are added to it. -/
theorem depth_read (context : Context) (text : List Char) (bracket : Bracket) :
    (context.read text).nesting.depth bracket
      = context.nesting.depth bracket
        + Int32.ofInt (bracket.balance (unquotedAfter context.quote text)) := by
  induction text generalizing context with
  | nil => simp [unquotedAfter]
  | cons c text ih =>
    rw [read_cons, ih, depth_feed, quote_feed]
    by_cases h : context.quote = none
    · simp only [unquotedAfter, h, ↓reduceIte]
      rw [Bracket.balance_cons bracket c (unquotedAfter _ text), Int32.ofInt_add, Int32.add_assoc]
    · simp [unquotedAfter, h]

/-- The depth after a short text is the number of openers less the number of closers. -/
theorem toInt_depth_read_start (text : List Char) (bracket : Bracket)
    (h : text.length < 2 ^ 31) :
    ((start.read text).nesting.depth bracket).toInt = bracket.balance (unquoted text) := by
  have hflat : start.nesting.depth bracket = 0 := by cases bracket <;> rfl
  have hlength : (unquoted text).length ≤ text.length := length_unquotedAfter_le none text
  have hbounds := bracket.balance_bounds (unquoted text)
  rw [depth_read, hflat, Int32.zero_add]
  -- a depth is no further from zero than the text is long, so that it does not wrap around
  apply Int32.toInt_ofInt_of_le
  · change _ ≤ bracket.balance (unquoted text)
    omega
  · change bracket.balance (unquoted text) < _
    omega

/-- No bracket is open exactly when every depth is zero. -/
theorem nesting_eq_flat_iff {nesting : Nesting} :
    nesting = .flat ↔ ∀ bracket, nesting.depth bracket = 0 := by
  have hflat (bracket : Bracket) : Nesting.flat.depth bracket = 0 := by cases bracket <;> rfl
  constructor
  · rintro rfl bracket
    exact hflat bracket
  · intro h
    exact Nesting.eq_of_depth fun bracket => (h bracket).trans (hflat bracket).symm

/-- With no quote and no bracket open the context is that of the first character. -/
theorem eq_start_iff {context : Context} :
    context = start ↔ context.quote = none ∧ context.nesting = .flat := by
  cases context
  simp [start]

/-- Nothing is open after a short text exactly when its quotes are closed and, outside quotes, it
has as many openers as closers of every kind. -/
theorem read_start_eq_start_iff {text : List Char} (h : text.length < 2 ^ 31) :
    start.read text = start
      ↔ openQuote text = none ∧ ∀ bracket : Bracket,
        (unquoted text).count bracket.opener = (unquoted text).count bracket.closer := by
  rw [eq_start_iff, quote_read, nesting_eq_flat_iff]
  refine and_congr Iff.rfl (forall_congr' fun bracket => ?_)
  rw [← Int32.toInt_inj, toInt_depth_read_start text bracket h, Int32.toInt_zero]
  exact Bracket.balance_eq_zero_iff

end Context

end Directive
