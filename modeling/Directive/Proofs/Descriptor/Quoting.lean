import Directive.Proofs.Descriptor.RoundTrip
import Directive.Proofs.Scan.Places
import Directive.Proofs.Token.Layout

/-!
# Scan and tokens agree on quotes

A scan tracks quotes to tell separators from other pipes, and the tokens of a segment are found
without it. Where the scan leaves no quote open they agree: the quoted tokens are the runs that the
scan goes through between quotes, and only blank characters lie in no token. Main facts:

* `filter_isQuoted_tokens`: in a text whose quotes close the quoted tokens are the quoted runs.
* `segments_quotesAgree`: what that makes of each segment of a directive, and what is left of the
  last one if a quote is still open at its end.
-/

namespace Directive

open Text (Span byteLength isBlank trim)

/-- Whether a token is a quoted one. -/
def Token.isQuoted (token : Token) : Bool :=
  token.unquote?.isSome

@[simp] theorem Token.isQuoted_quoted (quote : Quote) (inner : List Char) :
    isQuoted (quote.char :: (inner ++ [quote.char])) = true := by
  simp [isQuoted, unquote?_quoted]

theorem Token.isQuoted_of_isBare {token : Token} (h : IsBare token) : isQuoted token = false := by
  simp [isQuoted, unquote?_of_isBare h]

/-! ## The runs of a scan between quotes -/

/-- The runs between quotes that a scan goes through in a text, each from the quote that opens it to
the one that closes it: `lead` has been scanned before the text, and `run` is what has been scanned
of the run that is open. A run that the text leaves open is none of them. -/
def quotedRunsFrom (lead run : List Char) : List Char → List (List Char)
  | [] => []
  | c :: text =>
    if (contextAfter (lead ++ [c])).quote ≠ none then
      quotedRunsFrom (lead ++ [c]) (run ++ [c]) text
    else if (contextAfter lead).quote ≠ none then
      (run ++ [c]) :: quotedRunsFrom (lead ++ [c]) [] text
    else
      quotedRunsFrom (lead ++ [c]) [] text

/-- The runs between quotes that a scan goes through in a text after `lead`. -/
def quotedRuns (lead text : List Char) : List (List Char) :=
  quotedRunsFrom lead [] text

/-- A scan goes on where it has stopped. -/
theorem contextAfter_append (lead text : List Char) :
    contextAfter (lead ++ text) = (contextAfter lead).read text := by
  rw [contextAfter_eq_read, contextAfter_eq_read, Context.read_append]

theorem contextAfter_concat (lead : List Char) (c : Char) :
    contextAfter (lead ++ [c]) = (contextAfter lead).feed c :=
  contextAfter_append lead [c]

/-- A character outside quotes that is no quote opens none. -/
theorem quote_contextAfter_concat {lead : List Char} {c : Char}
    (hquote : (contextAfter lead).quote = none) (hc : Quote.ofChar? c = none) :
    (contextAfter (lead ++ [c])).quote = none := by
  rw [contextAfter_concat, Context.quote_feed, hquote]
  exact hc

/-- A character outside quotes that opens none is in no run. -/
theorem quotedRuns_cons {lead : List Char} {c : Char} (hquote : (contextAfter lead).quote = none)
    (hc : Quote.ofChar? c = none) (text : List Char) :
    quotedRuns lead (c :: text) = quotedRuns (lead ++ [c]) text := by
  have hnext := quote_contextAfter_concat hquote hc
  simp [quotedRuns, quotedRunsFrom, hquote, hnext]

/-- Outside quotes a run of plain characters is in no run between quotes. -/
theorem quotedRuns_plain {lead word : List Char} (hquote : (contextAfter lead).quote = none)
    (hword : ∀ c ∈ word, Token.isPlain c = true) (text : List Char) :
    quotedRuns lead (word ++ text) = quotedRuns (lead ++ word) text := by
  induction word generalizing lead with
  | nil => rw [List.nil_append, List.append_nil]
  | cons c word ih =>
    obtain ⟨hc, hword⟩ := List.forall_mem_cons.mp hword
    have hnone : Quote.ofChar? c = none := (Token.isPlain_iff.mp hc).2
    rw [List.cons_append, quotedRuns_cons hquote hnone,
      ih (quote_contextAfter_concat hquote hnone) hword, ← List.append_cons]

/-- In a quote a run goes on up to the same quote and ends there. -/
theorem quotedRunsFrom_closing {lead : List Char} {quote : Quote} {inner : List Char}
    (hquote : (contextAfter lead).quote = some quote) (hinner : quote.char ∉ inner)
    (run text : List Char) :
    quotedRunsFrom lead run (inner ++ quote.char :: text)
      = (run ++ (inner ++ [quote.char])) :: quotedRuns (lead ++ (inner ++ [quote.char])) text := by
  induction inner generalizing lead run with
  | nil =>
    have hnext : (contextAfter (lead ++ [quote.char])).quote = none := by
      rw [contextAfter_concat, Context.feed_same_quote hquote]
    simp [quotedRunsFrom, quotedRuns, hquote, hnext]
  | cons c inner ih =>
    obtain ⟨hc, hinner⟩ := not_or.mp (mt List.mem_cons.mpr hinner)
    have hnext : (contextAfter (lead ++ [c])).quote = some quote := by
      rw [contextAfter_concat, Context.feed_of_quote hquote (Ne.symm hc), hquote]
    have hstep : quotedRunsFrom lead run (c :: (inner ++ quote.char :: text))
        = quotedRunsFrom (lead ++ [c]) (run ++ [c]) (inner ++ quote.char :: text) := by
      simp [quotedRunsFrom, hnext]
    rw [List.cons_append, hstep, ih hnext hinner]
    simp

/-- Outside quotes a quoted run is the next run that the scan goes through. -/
theorem quotedRuns_quoted {lead : List Char} (hquote : (contextAfter lead).quote = none)
    {quote : Quote} {inner : List Char} (hinner : quote.char ∉ inner) (text : List Char) :
    quotedRuns lead (quote.char :: (inner ++ quote.char :: text))
      = (quote.char :: (inner ++ [quote.char]))
        :: quotedRuns (lead ++ quote.char :: (inner ++ [quote.char])) text := by
  have hopen : (contextAfter (lead ++ [quote.char])).quote = some quote := by
    rw [contextAfter_concat, Context.feed_quote hquote]
  have hstep : quotedRuns lead (quote.char :: (inner ++ quote.char :: text))
      = quotedRunsFrom (lead ++ [quote.char]) [quote.char] (inner ++ quote.char :: text) := by
    simp [quotedRuns, quotedRunsFrom, hopen]
  rw [hstep, quotedRunsFrom_closing hopen hinner]
  simp

/-- In a text whose quotes close the quoted tokens are the runs between quotes that the scan goes
through. -/
theorem filter_isQuoted_tokens {lead text : List Char} (hquote : (contextAfter lead).quote = none)
    (hclosed : (contextAfter (lead ++ text)).quote = none) :
    (tokens text).filter Token.isQuoted = quotedRuns lead text := by
  rw [contextAfter_append] at hclosed
  have hall : ∀ before : List Char, contextAfter before = contextAfter lead →
      (tokens text).filter Token.isQuoted = quotedRuns before text := by
    refine Context.closed_induction ?nil ?blank ?bare ?quoted hquote hclosed
    case nil =>
      intro context before _
      rw [tokens_nil]
      rfl
    case blank =>
      rintro context c rest hquote hc ih before rfl
      have hnone := Quote.ofChar?_eq_none_of_symbol (Context.ofChar?_of_isBlank hc)
      rw [tokens_cons_of_isBlank hc, quotedRuns_cons hquote hnone]
      refine ih (before ++ [c]) ?_
      rw [contextAfter_concat, Context.feed_of_none (Context.ofChar?_of_isBlank hc)]
    case bare =>
      rintro context word rest hquote hword hrest ih before rfl
      -- a run of plain characters is no quoted token, and the scan meets no quote in it
      rw [tokens_append_of_isBare hword hrest, quotedRuns_plain hquote hword.2,
        List.filter_cons_of_neg (by simp [Token.isQuoted_of_isBare hword])]
      exact ih (before ++ word) (contextAfter_append before word)
    case quoted =>
      rintro context quote inner rest hquote hinner ih before rfl
      rw [tokens_quoted hinner, quotedRuns_quoted hquote hinner,
        List.filter_cons_of_pos (Token.isQuoted_quoted quote inner), ih]
      -- the run leaves the scan where it found it
      rw [contextAfter_append, Context.read_quoted hquote hinner]
  exact hall lead rfl

/-! ## The segments of a directive -/

/-- A segment is no filter exactly when it has no tokens. -/
theorem Filter.ofSegment?_eq_none_iff {segment : List Char} :
    ofSegment? segment = none ↔ tokens segment = [] := by
  rw [ofSegment?_eq]
  cases tokens segment <;> simp [ofTokens?]

/-- A scan and the tokens agree on the quotes of a segment: `segment` stands after `lead`, and
`followed` says whether another segment follows. -/
structure QuotesAgree (lead segment : List Char) (followed : Prop) : Prop where
  /-- In front of another segment the scan leaves no quote open. -/
  closed : followed → (contextAfter (lead ++ segment)).quote = none
  /-- If it leaves none open, the quoted tokens are the runs between quotes that it goes through. -/
  runs : (contextAfter (lead ++ segment)).quote = none →
    (tokens (trim segment)).filter Token.isQuoted = quotedRuns lead segment
  /-- The tokens stand in the segment. -/
  layout : ∃ gaps, Layout segment (tokens (trim segment)) gaps
  /-- If the scan leaves no quote open, only blank characters lie in no token. -/
  blank : (contextAfter (lead ++ segment)).quote = none →
    ∀ gaps, Layout segment (tokens (trim segment)) gaps → ∀ c ∈ gaps, isBlank c = true
  /-- In any case, also with a quote left open, the characters of no token are blank or quotes. -/
  blank_or_quote : ∀ gaps, Layout segment (tokens (trim segment)) gaps →
    ∀ c ∈ gaps, isBlank c = true ∨ ∃ quote : Quote, c = quote.char
  /-- At most one quote of each kind is among them. -/
  count_quote : ∀ gaps, Layout segment (tokens (trim segment)) gaps →
    ∀ quote : Quote, gaps.count quote.char ≤ 1
  /-- A segment that is no filter is blank if another segment follows. -/
  dropped : followed → Filter.ofSegment? segment = none → ∀ c ∈ segment, isBlank c = true

/-- Scan and tokens agree on the quotes of every segment of a directive, and nothing but blank
characters and quotes that do not close is lost. -/
theorem segments_quotesAgree (raw : String) {before after : List Span} {span : Span}
    (h : (Pieces.ofText raw.toList).segments = before ++ span :: after) :
    ∃ lead segment rest, raw.toList = lead ++ (segment ++ rest)
      ∧ span = ⟨byteLength lead, byteLength lead + byteLength segment⟩
      ∧ QuotesAgree lead segment (after ≠ []) := by
  obtain ⟨lead, segment, rest, htext, ⟨hspan, hlead⟩, hread⟩ := exists_of_segments_ofText h
  have hquote : (contextAfter lead).quote = none := by
    rw [contextAfter_eq_read, hlead]
    rfl
  -- a separator stands outside quotes
  have hlast : after ≠ [] → (contextAfter (lead ++ segment)).quote = none := by
    intro hafter
    rw [contextAfter_append, contextAfter_eq_read, hlead, hread hafter]
    rfl
  refine ⟨lead, segment, rest, htext, hspan, ?_⟩
  constructor
  case closed => exact hlast
  case runs =>
    rw [tokens_trim]
    exact filter_isQuoted_tokens hquote
  case layout =>
    obtain ⟨gaps, hlayout, -⟩ := exists_layout_tokens segment
    rw [tokens_trim]
    exact ⟨gaps, hlayout⟩
  case blank =>
    intro hclosed gaps hlayout
    rw [contextAfter_append] at hclosed
    rw [tokens_trim] at hlayout
    exact hlayout.isBlank_of_closed hquote hclosed
  case blank_or_quote =>
    intro gaps hlayout
    rw [tokens_trim] at hlayout
    exact hlayout.isBlank_or_quote
  case count_quote =>
    intro gaps hlayout
    rw [tokens_trim] at hlayout
    exact hlayout.count_quote_le_one
  case dropped =>
    intro hafter hnone
    have hclosed := hlast hafter
    rw [contextAfter_append] at hclosed
    exact isBlank_of_tokens_eq_nil hquote hclosed (Filter.ofSegment?_eq_none_iff.mp hnone)

/-- A quoted run that holds the other quote and a pipe, two runs without a blank between them, a
blank segment, and a quote that is still open at the end. -/
theorem segments_quotesAgree_mixed :
    (Pieces.ofText "x | f \"a|'b\"'c'|  | g \"h 'i".toList).segments
        = [] ++ ⟨3, 15⟩ :: [⟨16, 18⟩, ⟨19, 27⟩] ∧
      ∃ lead segment rest,
        "x | f \"a|'b\"'c'|  | g \"h 'i".toList = lead ++ (segment ++ rest)
        ∧ Span.mk 3 15 = ⟨byteLength lead, byteLength lead + byteLength segment⟩
        ∧ QuotesAgree lead segment ([⟨16, 18⟩, ⟨19, 27⟩] ≠ ([] : List Span)) := by
  have h : (Pieces.ofText "x | f \"a|'b\"'c'|  | g \"h 'i".toList).segments
      = [] ++ ⟨3, 15⟩ :: [⟨16, 18⟩, ⟨19, 27⟩] := by decide +kernel
  exact ⟨h, segments_quotesAgree _ h⟩

end Directive
