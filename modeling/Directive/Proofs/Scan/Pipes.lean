import Directive.Proofs.Scan.Words

/-!
# Counting pipes

The pipes of a text that stand outside quotes. Every separator is one of them, so that the place of
a separator can be told from the number of pipes before it. Main facts:

* `sum_pipes_parts`: the parts of a text hold all its pipes but the separators.
* `sum_pipes_tokens`: the tokens of a text whose quotes close hold all its pipes.
* `eq_of_pipes_eq`: of two texts that a pipe follows, one a start of the other, the longer one has
  more pipes.
-/

namespace Directive

theorem unquotedAfter_append (quote : Option Quote) (a b : List Char) :
    unquotedAfter quote (a ++ b)
      = unquotedAfter quote a ++ unquotedAfter (a.foldl Quote.follow quote) b := by
  induction a generalizing quote with
  | nil => rfl
  | cons c a ih =>
    simp only [List.cons_append, unquotedAfter, List.foldl_cons, ih]
    split <;> rfl

theorem mem_of_mem_unquotedAfter {quote : Option Quote} {text : List Char} {c : Char}
    (h : c ∈ unquotedAfter quote text) : c ∈ text := by
  induction text generalizing quote with
  | nil => exact h
  | cons d text ih =>
    unfold unquotedAfter at h
    split at h
    · rcases List.mem_cons.mp h with rfl | h
      · exact List.mem_cons_self
      · exact List.mem_cons_of_mem d (ih h)
    · exact List.mem_cons_of_mem d (ih h)

/-- In a quote no character without the same quote is outside quotes. -/
theorem unquotedAfter_quote {quote : Quote} {text : List Char} (h : quote.char ∉ text) :
    unquotedAfter (some quote) text = [] := by
  induction text with
  | nil => rfl
  | cons c text ih =>
    have hc : Quote.ofChar? c ≠ some quote := fun hquote =>
      h (Quote.ofChar?_eq_some_iff.mp hquote ▸ List.mem_cons_self)
    have hfollow : Quote.follow (some quote) c = some quote := if_neg hc
    rw [unquotedAfter, if_neg (Option.some_ne_none quote), hfollow]
    exact ih fun hmem => h (List.mem_cons_of_mem c hmem)

/-- How many pipes of a text stand outside quotes. -/
def pipes (text : List Char) : Nat :=
  (unquoted text).count '|'

@[simp] theorem pipes_nil : pipes [] = 0 := rfl

/-- A text without pipes has none outside quotes. -/
theorem pipes_of_not_mem {text : List Char} (h : '|' ∉ text) : pipes text = 0 :=
  List.count_eq_zero_of_not_mem fun hmem => h (mem_of_mem_unquotedAfter hmem)

/-- After a text whose quotes close the pipes are counted anew. -/
theorem pipes_append {a : List Char} (h : (Context.start.read a).quote = none) (b : List Char) :
    pipes (a ++ b) = pipes a + pipes b := by
  have hquote : a.foldl Quote.follow none = none := by
    rw [Context.quote_read] at h
    exact h
  rw [pipes, unquoted, unquotedAfter_append, hquote, List.count_append]
  rfl

theorem pipes_cons_pipe (text : List Char) : pipes ('|' :: text) = pipes text + 1 := by
  have hone : pipes ['|'] = 1 := rfl
  rw [← List.singleton_append, pipes_append rfl, hone, Nat.add_comm]

/-- A blank in front is no pipe. -/
theorem pipes_cons_of_isBlank {c : Char} (h : Text.isBlank c = true) (text : List Char) :
    pipes (c :: text) = pipes text := by
  have hread : (Context.start.read [c]).quote = none := by
    rw [Context.read_blanks (by simpa using h)]
    rfl
  have hnone : pipes [c] = 0 :=
    pipes_of_not_mem (by simpa using (Text.ne_pipe_of_isBlank h).symm)
  rw [← List.singleton_append, pipes_append hread, hnone, Nat.zero_add]

/-- In a quoted run no pipe stands outside quotes. -/
theorem pipes_quoted {quote : Quote} {inner : List Char} (h : quote.char ∉ inner) :
    pipes (quote.char :: (inner ++ [quote.char])) = 0 := by
  have hfollow : Quote.follow none quote.char = some quote := quote.ofChar?_char
  -- the closing quote itself still counts as quoted
  have hinner : unquotedAfter (some quote) (inner ++ [quote.char]) = [] := by
    rw [unquotedAfter_append, unquotedAfter_quote h, List.nil_append]
    have hopen : inner.foldl Quote.follow (some quote) = some quote := by
      have hread := Context.quote_read ⟨some quote, .flat⟩ inner
      rw [Context.read_of_quote rfl h] at hread
      exact hread.symm
    rw [hopen]
    rfl
  have hpipe : quote.char ≠ '|' := by cases quote <;> decide
  rw [pipes, unquoted, unquotedAfter, if_pos rfl, hfollow, hinner]
  exact List.count_eq_zero_of_not_mem (by simpa using hpipe.symm)

/-- One pipe of a text is lost at each of its separators. -/
theorem sum_pipes_parts (text : List Char) :
    ((parts text).map pipes).sum + (parts text).length = pipes text + 1 := by
  have hall (before : Option Char) :
      ((Context.start.parts before text none).map pipes).sum
        + (Context.start.parts before text none).length = pipes text + 1 := by
    induction before, text using Context.parts_induction with
    | whole before text hwhole =>
      rw [Context.parts_of_whole hwhole]
      simp
    | cut before first rest hwhole hread hlast hhead hparts ih =>
      have hclosed : (Context.start.read first).quote = none := by
        rw [hread]
        rfl
      rw [hparts, pipes_append hclosed, pipes_cons_pipe, List.map_cons, List.sum_cons,
        List.length_cons]
      omega
  exact hall none

/-- All pipes of a text whose quotes close stand in its tokens. -/
theorem sum_pipes_tokens {text : List Char} (hclosed : (Context.start.read text).quote = none) :
    ((tokens text).map pipes).sum = pipes text := by
  refine Context.closed_induction ?nil ?blank ?bare ?quoted rfl hclosed
  case nil =>
    intro _
    rw [tokens_nil]
    rfl
  case blank =>
    intro _ c rest _ hc ih
    rw [tokens_cons_of_isBlank hc, pipes_cons_of_isBlank hc, ih]
  case bare =>
    intro _ word rest _ hword hrest ih
    rw [tokens_append_of_isBare hword hrest, List.map_cons, List.sum_cons, ih,
      pipes_append (Context.quote_read_word rfl (Or.inl hword))]
  case quoted =>
    intro _ quote inner rest _ hinner ih
    have hread : (Context.start.read (quote.char :: (inner ++ [quote.char]))).quote = none := by
      rw [Context.read_quoted rfl hinner]
      rfl
    rw [tokens_quoted hinner, List.map_cons, List.sum_cons, ih,
      Token.quoted_append quote inner rest, pipes_append hread]

/-- All pipes of a text of words stand in its words. -/
theorem pipes_spaced {words : List (List Char)} (h : ∀ word ∈ words, Token.IsWord word) :
    pipes (spaced words) = (words.map pipes).sum := by
  rw [← sum_pipes_tokens (Context.quote_read_spaced rfl h), tokens_spaced h]

/-- Behind a text whose quotes close a pipe is one more. -/
theorem pipes_lt_pipes_append {a : List Char} (h : (Context.start.read a).quote = none)
    (b : List Char) : pipes a < pipes (a ++ '|' :: b) := by
  rw [pipes_append h, pipes_cons_pipe]
  omega

/-- How a text is cut at a pipe is known from the number of pipes before the cut. -/
theorem eq_of_pipes_eq {a b a' b' : List Char} (h : a ++ '|' :: b = a' ++ '|' :: b')
    (ha : (Context.start.read a).quote = none) (ha' : (Context.start.read a').quote = none)
    (hpipes : pipes a = pipes a') : a = a' ∧ b = b' := by
  rcases List.append_eq_append_iff.mp h with ⟨more, rfl, hmore⟩ | ⟨more, rfl, hmore⟩
  · cases more with
    | nil => simpa using hmore
    | cons c more =>
      obtain ⟨rfl, -⟩ := List.cons.inj hmore
      exact absurd hpipes (Nat.ne_of_lt (pipes_lt_pipes_append ha more))
  · cases more with
    | nil => simpa [eq_comm] using hmore
    | cons c more =>
      obtain ⟨rfl, -⟩ := List.cons.inj hmore
      exact absurd hpipes.symm (Nat.ne_of_lt (pipes_lt_pipes_append ha' more))

end Directive
