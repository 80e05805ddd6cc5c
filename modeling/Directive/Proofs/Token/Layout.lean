import Directive.Proofs.Scan.Words
import Mathlib.Data.List.Perm.Basic

/-!
# What lies between tokens

The tokens of a text stand in it one after the other. The characters of no token are its gaps: blank
characters, and quotes that do not close. Main facts:

* `Layout.gaps_perm`: wherever tokens stand in a text, the same characters lie in none of them.
* `exists_layout_tokens`: the tokens of a text stand in it.
* `Layout.count_quote_le_one`: wherever they stand, the gaps hold each quote at most once.
* `Layout.isBlank_of_closed`: if the quotes of the text close, then the gaps are blank.
-/

namespace Directive

open Text (isBlank)
open Token

/-- Tokens stand in a text in their order and apart from each other; the characters that lie in no
token are the gaps. -/
inductive Layout : List Char → List Token → List Char → Prop
  /-- The empty text has no tokens and no gaps. -/
  | nil : Layout [] [] []
  /-- The text starts with a character of no token. -/
  | gap {text : List Char} {tokens : List Token} {gaps : List Char} (c : Char) :
    Layout text tokens gaps → Layout (c :: text) tokens (c :: gaps)
  /-- The text starts with a token. -/
  | token {text : List Char} {tokens : List Token} {gaps : List Char} (token : Token) :
    Layout text tokens gaps → Layout (token ++ text) (token :: tokens) gaps

namespace Layout

variable {text gaps others : List Char} {tokens : List Token}

/-- The tokens and the gaps are all there is of a text. -/
theorem perm (h : Layout text tokens gaps) : text.Perm (tokens.flatten ++ gaps) := by
  induction h with
  | nil => exact List.Perm.nil
  | gap c _ ih => exact (ih.cons c).trans List.perm_middle.symm
  | token token _ ih =>
    rw [List.flatten_cons, List.append_assoc]
    exact ih.append_left token

/-- Wherever the tokens stand, the same characters are left. -/
theorem gaps_perm (h : Layout text tokens gaps) (hother : Layout text tokens others) :
    others.Perm gaps :=
  (List.perm_append_left_iff _).mp (hother.perm.symm.trans h.perm)

/-- A character of a gap is one of the text. -/
theorem mem_text (h : Layout text tokens gaps) {c : Char} (hc : c ∈ gaps) : c ∈ text :=
  h.perm.mem_iff.mpr (List.mem_append_right _ hc)

/-- A text without tokens is all gaps. -/
theorem text_perm (h : Layout text [] gaps) : text.Perm gaps := by
  simpa using h.perm

/-- A quoted run in front of a text is a token. -/
theorem quoted (h : Layout text tokens gaps) (quote : Quote) (inner : List Char) :
    Layout (quote.char :: (inner ++ quote.char :: text))
      ((quote.char :: (inner ++ [quote.char])) :: tokens) gaps := by
  rw [quoted_append]
  exact h.token _

end Layout

/-- The tokens of a text stand in it. The characters of no token are blank characters and at most
one quote of each kind. -/
theorem exists_layout_tokens (text : List Char) :
    ∃ gaps, Layout text (tokens text) gaps
      ∧ (∀ c ∈ gaps, isBlank c = true ∨ ∃ quote : Quote, c = quote.char)
      ∧ ∀ quote : Quote, gaps.count quote.char ≤ 1 := by
  induction text using tokens_induction with
  | nil =>
    rw [tokens_nil]
    exact ⟨[], .nil, by simp, by simp⟩
  | blank c rest hc ih =>
    obtain ⟨gaps, hlayout, hgaps, hcount⟩ := ih
    rw [tokens_cons_of_isBlank hc]
    refine ⟨c :: gaps, hlayout.gap c, ?_, ?_⟩
    · exact List.forall_mem_cons.mpr ⟨Or.inl hc, hgaps⟩
    · intro quote
      rw [List.count_cons_of_ne (ne_char_of_isBlank hc quote)]
      exact hcount quote
  | bare word rest hword hrest ih =>
    obtain ⟨gaps, hlayout, hgaps⟩ := ih
    rw [tokens_append_of_isBare hword hrest]
    exact ⟨gaps, hlayout.token word, hgaps⟩
  | quoted quote inner rest hinner ih =>
    obtain ⟨gaps, hlayout, hgaps⟩ := ih
    rw [tokens_quoted hinner]
    exact ⟨gaps, hlayout.quoted quote inner, hgaps⟩
  | unclosed quote rest hrest ih =>
    -- the quote is skipped, and what follows is read as if it were not there
    obtain ⟨gaps, hlayout, hgaps, hcount⟩ := ih
    rw [tokens_unclosed hrest]
    refine ⟨quote.char :: gaps, hlayout.gap quote.char, ?_, ?_⟩
    · exact List.forall_mem_cons.mpr ⟨Or.inr ⟨quote, rfl⟩, hgaps⟩
    · intro other
      by_cases hother : other = quote
      · -- the same quote does not come back, or this one would be closed
        have hnone : quote.char ∉ gaps := fun hmem => hrest (hlayout.mem_text hmem)
        rw [hother, List.count_cons_self, List.count_eq_zero_of_not_mem hnone]
      · have hne : quote.char ≠ other.char := fun h => hother (Quote.char_injective h.symm)
        rw [List.count_cons_of_ne hne]
        exact hcount other

/-- In a text whose quotes close only blank characters lie in no token. -/
theorem exists_layout_of_closed {context : Context} {text : List Char}
    (hquote : context.quote = none) (hclosed : (context.read text).quote = none) :
    ∃ gaps, Layout text (tokens text) gaps ∧ ∀ c ∈ gaps, isBlank c = true := by
  refine Context.closed_induction ?nil ?blank ?bare ?quoted hquote hclosed
  case nil =>
    intro context
    rw [tokens_nil]
    exact ⟨[], .nil, by simp⟩
  case blank =>
    rintro context c rest - hc ⟨gaps, hlayout, hgaps⟩
    rw [tokens_cons_of_isBlank hc]
    exact ⟨c :: gaps, hlayout.gap c, List.forall_mem_cons.mpr ⟨hc, hgaps⟩⟩
  case bare =>
    rintro context word rest - hword hrest ⟨gaps, hlayout, hgaps⟩
    rw [tokens_append_of_isBare hword hrest]
    exact ⟨gaps, hlayout.token word, hgaps⟩
  case quoted =>
    rintro context quote inner rest - hinner ⟨gaps, hlayout, hgaps⟩
    rw [tokens_quoted hinner]
    exact ⟨gaps, hlayout.quoted quote inner, hgaps⟩

/-! ## All layouts of the tokens of a text -/

namespace Layout

variable {text gaps : List Char}

/-- What lies in no token of a text is blank or a quote. -/
theorem isBlank_or_quote (h : Layout text (tokens text) gaps) :
    ∀ c ∈ gaps, isBlank c = true ∨ ∃ quote : Quote, c = quote.char := by
  obtain ⟨others, hlayout, hothers, -⟩ := exists_layout_tokens text
  exact fun c hc => hothers c ((h.gaps_perm hlayout).mem_iff.mpr hc)

/-- At most one quote of each kind lies in no token of a text. -/
theorem count_quote_le_one (h : Layout text (tokens text) gaps) (quote : Quote) :
    gaps.count quote.char ≤ 1 := by
  obtain ⟨others, hlayout, -, hcount⟩ := exists_layout_tokens text
  rw [← (h.gaps_perm hlayout).count_eq]
  exact hcount quote

/-- What lies in no token of a text whose quotes close is blank. -/
theorem isBlank_of_closed (h : Layout text (tokens text) gaps) {context : Context}
    (hquote : context.quote = none) (hclosed : (context.read text).quote = none) :
    ∀ c ∈ gaps, isBlank c = true := by
  obtain ⟨others, hlayout, hothers⟩ := exists_layout_of_closed hquote hclosed
  exact fun c hc => hothers c ((h.gaps_perm hlayout).mem_iff.mpr hc)

end Layout

/-- A text without tokens whose quotes close is blank. -/
theorem isBlank_of_tokens_eq_nil {context : Context} {text : List Char}
    (hquote : context.quote = none) (hclosed : (context.read text).quote = none)
    (hnone : tokens text = []) : ∀ c ∈ text, isBlank c = true := by
  obtain ⟨gaps, hlayout, hgaps⟩ := exists_layout_of_closed hquote hclosed
  rw [hnone] at hlayout
  exact fun c hc => hgaps c (hlayout.text_perm.mem_iff.mp hc)

end Directive
