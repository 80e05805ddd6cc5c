import Directive.Token
import Directive.Proofs.Scan.Depth
import Directive.Proofs.Text.Trim

/-!
# Words

What a token can be: a run of plain characters, or a quoted run that does not hold its own quote.
The tokens of a text are read off its start, and `tokens_induction` follows them. Main facts:

* `isWord_of_mem_tokens`: a token is a word, whatever the text.
* `tokens_append_of_isBare`, `tokens_quoted`: a word at the start of a text is its first token.
* `tokens_trim`: the blanks around a text do not change its tokens.
* `tokens_spaced`: the tokens of a text of words are the words.
-/

namespace Directive

open Text (isBlank)

namespace Quote

/-- A quote is not blank. -/
@[simp] theorem isBlank_char (quote : Quote) : isBlank quote.char = false := by
  cases quote <;> decide

/-- A quote is not a plain character. -/
@[simp] theorem isPlain_char (quote : Quote) : Token.isPlain quote.char = false := by
  cases quote <;> decide

/-- Each quote has a character of its own. -/
theorem char_injective : Function.Injective char :=
  fun quote other h => Option.some.inj (by rw [← ofChar?_char quote, h, ofChar?_char])

end Quote

namespace Token

theorem isPlain_iff {c : Char} : isPlain c = true ↔ isBlank c = false ∧ Quote.ofChar? c = none := by
  simp [isPlain]

/-- A blank character is not plain. -/
theorem isPlain_of_isBlank {c : Char} (h : isBlank c = true) : isPlain c = false := by
  simp [isPlain, h]

/-- A blank character is no quote. -/
theorem ne_char_of_isBlank {c : Char} (h : isBlank c = true) (quote : Quote) : c ≠ quote.char := by
  rintro rfl
  rw [quote.isBlank_char] at h
  cases h

/-- A plain character is no quote. -/
theorem ne_char_of_isPlain {c : Char} (h : isPlain c = true) (quote : Quote) : c ≠ quote.char := by
  rintro rfl
  rw [quote.isPlain_char] at h
  cases h

/-- A character is blank, plain or a quote. -/
theorem blank_or_plain_or_quote (c : Char) :
    isBlank c = true ∨ isPlain c = true ∨ ∃ quote : Quote, c = quote.char := by
  cases hblank : isBlank c with
  | true => exact Or.inl rfl
  | false =>
    cases hquote : Quote.ofChar? c with
    | none => exact Or.inr (Or.inl (isPlain_iff.mpr ⟨hblank, hquote⟩))
    | some quote => exact Or.inr (Or.inr ⟨quote, Quote.ofChar?_eq_some_iff.mp hquote⟩)

/-- A run of plain characters. -/
def IsBare (token : List Char) : Prop :=
  token ≠ [] ∧ ∀ c ∈ token, isPlain c = true

/-- A text between two quotes of a kind that it does not hold. -/
def IsQuoted (token : List Char) : Prop :=
  ∃ (quote : Quote) (inner : List Char),
    quote.char ∉ inner ∧ token = quote.char :: (inner ++ [quote.char])

/-- What a token can be. -/
def IsWord (token : List Char) : Prop :=
  IsBare token ∨ IsQuoted token

theorem isQuoted_of_not_mem {quote : Quote} {inner : List Char} (h : quote.char ∉ inner) :
    IsQuoted (quote.char :: (inner ++ [quote.char])) :=
  ⟨quote, inner, h, rfl⟩

/-- A quoted run in front of a text. -/
theorem quoted_append (quote : Quote) (inner rest : List Char) :
    quote.char :: (inner ++ quote.char :: rest)
      = quote.char :: (inner ++ [quote.char]) ++ rest := by
  simp

end Token

open Token

/-! ## The first token of a text -/

@[simp] theorem tokens_nil : tokens [] = [] := by
  rw [tokens]

/-- A blank character in front is skipped. -/
theorem tokens_cons_of_isBlank {c : Char} (h : isBlank c = true) (rest : List Char) :
    tokens (c :: rest) = tokens rest := by
  have hquote : Quote.ofChar? c = none := by
    cases hquote : Quote.ofChar? c with
    | none => rfl
    | some quote => exact absurd (Quote.ofChar?_eq_some_iff.mp hquote) (ne_char_of_isBlank h quote)
  rw [tokens]
  simp [hquote, h]

/-- A quote in front that does not close is skipped. -/
theorem tokens_unclosed {quote : Quote} {rest : List Char} (h : quote.char ∉ rest) :
    tokens (quote.char :: rest) = tokens rest := by
  rw [tokens]
  simp [h]

/-- A quoted run in front is the first token. -/
theorem tokens_quoted {quote : Quote} {inner : List Char} (h : quote.char ∉ inner)
    (rest : List Char) :
    tokens (quote.char :: (inner ++ quote.char :: rest))
      = (quote.char :: (inner ++ [quote.char])) :: tokens rest := by
  have hne : ∀ c ∈ inner, (!decide (c = quote.char)) = true := by
    intro c hc
    simpa using fun heq : c = quote.char => h (heq ▸ hc)
  rw [tokens]
  simp [List.takeWhile_append_of_pos hne, List.dropWhile_append_of_pos hne]

/-- A run of plain characters in front is the first token if it cannot be longer. -/
theorem tokens_append_of_isBare {word rest : List Char} (hword : IsBare word)
    (hrest : ∀ c ∈ rest.head?, isPlain c = false) :
    tokens (word ++ rest) = word :: tokens rest := by
  obtain ⟨hne, hplain⟩ := hword
  cases word with
  | nil => exact absurd rfl hne
  | cons c word =>
    obtain ⟨hblank, hquote⟩ := isPlain_iff.mp (hplain c List.mem_cons_self)
    have hword : ∀ d ∈ word, isPlain d = true := fun d hd => hplain d (List.mem_cons_of_mem c hd)
    -- the run ends where the rest starts
    have htake : rest.takeWhile isPlain = [] := by
      cases rest with
      | nil => rfl
      | cons d rest => simp [hrest d rfl]
    have hdrop : rest.dropWhile isPlain = rest := by
      cases rest with
      | nil => rfl
      | cons d rest => simp [hrest d rfl]
    rw [List.cons_append, tokens]
    simp [hquote, hblank, List.takeWhile_append_of_pos hword, List.dropWhile_append_of_pos hword,
      htake, hdrop]

/-- Induction on the tokens of a text: what a text starts with is a blank character, a run of plain
characters, a quoted run or a quote that does not close. -/
@[elab_as_elim]
theorem tokens_induction {motive : List Char → Prop}
    (nil : motive [])
    (blank : ∀ c rest, isBlank c = true → motive rest → motive (c :: rest))
    (bare : ∀ word rest, IsBare word → (∀ c ∈ rest.head?, isPlain c = false) → motive rest →
      motive (word ++ rest))
    (quoted : ∀ (quote : Quote) inner rest, quote.char ∉ inner → motive rest →
      motive (quote.char :: (inner ++ quote.char :: rest)))
    (unclosed : ∀ (quote : Quote) rest, quote.char ∉ rest → motive rest →
      motive (quote.char :: rest))
    (text : List Char) : motive text := by
  induction hlength : text.length using Nat.strongRecOn generalizing text with
  | ind n ih =>
    subst hlength
    cases text with
    | nil => exact nil
    | cons c rest =>
      rcases blank_or_plain_or_quote c with hc | hc | ⟨quote, rfl⟩
      · exact blank c rest hc (ih rest.length (by simp) rest rfl)
      · -- the longest run of plain characters
        have hsplit : c :: rest = (c :: rest.takeWhile isPlain) ++ rest.dropWhile isPlain := by
          simp [List.takeWhile_append_dropWhile]
        have hle := (List.dropWhile_sublist (l := rest) isPlain).length_le
        rw [hsplit]
        refine bare _ _ ⟨List.cons_ne_nil _ _, ?_⟩ ?_ (ih _ (by simp; omega) _ rfl)
        · intro d hd
          rcases List.mem_cons.mp hd with rfl | hd
          · exact hc
          · exact List.mem_takeWhile_imp hd
        · intro d hd
          have hnot := List.head?_dropWhile_not isPlain rest
          rw [Option.mem_def.mp hd] at hnot
          exact hnot
      · by_cases hmem : quote.char ∈ rest
        · obtain ⟨inner, more, rfl, hinner⟩ := List.eq_append_cons_of_mem hmem
          exact quoted quote inner more hinner (ih _ (by simp; omega) more rfl)
        · exact unclosed quote rest hmem (ih rest.length (by simp) rest rfl)

/-! ## What holds of all tokens -/

/-- A token is a word. -/
theorem isWord_of_mem_tokens {text token : List Char} (h : token ∈ tokens text) : IsWord token := by
  induction text using tokens_induction with
  | nil => simp at h
  | blank c rest hc ih =>
    rw [tokens_cons_of_isBlank hc] at h
    exact ih h
  | bare word rest hword hrest ih =>
    rw [tokens_append_of_isBare hword hrest] at h
    rcases List.mem_cons.mp h with rfl | h
    · exact Or.inl hword
    · exact ih h
  | quoted quote inner rest hinner ih =>
    rw [tokens_quoted hinner] at h
    rcases List.mem_cons.mp h with rfl | h
    · exact Or.inr (isQuoted_of_not_mem hinner)
    · exact ih h
  | unclosed quote rest hrest ih =>
    rw [tokens_unclosed hrest] at h
    exact ih h

/-- A word in front of a blank character or the end is the first token. -/
theorem tokens_append_of_isWord {word rest : List Char} (hword : IsWord word)
    (hrest : ∀ c ∈ rest.head?, isBlank c = true) :
    tokens (word ++ rest) = word :: tokens rest := by
  rcases hword with hword | ⟨quote, inner, hinner, rfl⟩
  · exact tokens_append_of_isBare hword fun c hc => isPlain_of_isBlank (hrest c hc)
  · simpa using tokens_quoted hinner rest

/-- A blank character at the end is skipped. -/
theorem tokens_concat_of_isBlank {c : Char} (hc : isBlank c = true) (text : List Char) :
    tokens (text ++ [c]) = tokens text := by
  induction text using tokens_induction with
  | nil => rw [List.nil_append, tokens_cons_of_isBlank hc]
  | blank d rest hd ih =>
    rw [List.cons_append, tokens_cons_of_isBlank hd, ih, tokens_cons_of_isBlank hd]
  | bare word rest hword hrest ih =>
    -- the blank ends the run just as the end of the text does
    have hhead : ∀ d ∈ (rest ++ [c]).head?, isPlain d = false := by
      intro d hd
      cases rest with
      | nil =>
        obtain rfl : c = d := by simpa using hd
        exact isPlain_of_isBlank hc
      | cons e rest => exact hrest d (by simpa using hd)
    rw [List.append_assoc, tokens_append_of_isBare hword hhead, ih,
      tokens_append_of_isBare hword hrest]
  | quoted quote inner rest hinner ih =>
    have htext : quote.char :: (inner ++ quote.char :: rest) ++ [c]
        = quote.char :: (inner ++ quote.char :: (rest ++ [c])) := by simp
    rw [htext, tokens_quoted hinner, ih, tokens_quoted hinner]
  | unclosed quote rest hrest ih =>
    -- the blank does not close the quote
    have hmore : quote.char ∉ rest ++ [c] := by
      simpa [hrest] using (ne_char_of_isBlank hc quote).symm
    rw [List.cons_append, tokens_unclosed hmore, ih, tokens_unclosed hrest]

/-- Blank characters in front are skipped. -/
theorem tokens_append_of_blanks {blanks : List Char} (h : ∀ c ∈ blanks, isBlank c = true)
    (text : List Char) : tokens (blanks ++ text) = tokens text := by
  induction blanks with
  | nil => rfl
  | cons c blanks ih =>
    rw [List.cons_append, tokens_cons_of_isBlank (h c List.mem_cons_self)]
    exact ih fun d hd => h d (List.mem_cons_of_mem c hd)

/-- Blank characters at the end are skipped. -/
theorem tokens_blanks_append {blanks : List Char} (h : ∀ c ∈ blanks, isBlank c = true)
    (text : List Char) : tokens (text ++ blanks) = tokens text := by
  induction blanks generalizing text with
  | nil => rw [List.append_nil]
  | cons c blanks ih =>
    have htext : text ++ c :: blanks = text ++ [c] ++ blanks := by simp
    rw [htext, ih fun d hd => h d (List.mem_cons_of_mem c hd),
      tokens_concat_of_isBlank (h c List.mem_cons_self)]

/-- The blanks around a text do not change its tokens. -/
@[simp] theorem tokens_trim (text : List Char) : tokens (Text.trim text) = tokens text := by
  obtain ⟨lead, trail, htext, hlead, htrail⟩ := Text.exists_eq_trim text
  calc
    tokens (Text.trim text) = tokens (lead ++ (Text.trim text ++ trail)) := by
      rw [tokens_append_of_blanks hlead, tokens_blanks_append htrail]
    _ = tokens text := by rw [← htext]

/-! ## Texts of words -/

/-- Words with a blank in front of each. -/
def spaced (words : List (List Char)) : List Char :=
  words.flatMap fun word => ' ' :: word

@[simp] theorem spaced_nil : spaced [] = [] := rfl

@[simp] theorem spaced_cons (word : List Char) (words : List (List Char)) :
    spaced (word :: words) = ' ' :: (word ++ spaced words) := rfl

/-- After words comes what follows them, and a blank in front of the words. -/
theorem isBlank_head?_spaced_append (words : List (List Char)) {rest : List Char}
    (hrest : ∀ c ∈ rest.head?, isBlank c = true) :
    ∀ c ∈ (spaced words ++ rest).head?, isBlank c = true := by
  intro c hc
  cases words with
  | nil => exact hrest c hc
  | cons word words =>
    obtain rfl : ' ' = c := by simpa using hc
    rfl

/-- The tokens of a text of words are the words and the tokens after them. -/
theorem tokens_spaced_append {words : List (List Char)} (h : ∀ word ∈ words, IsWord word)
    {rest : List Char} (hrest : ∀ c ∈ rest.head?, isBlank c = true) :
    tokens (spaced words ++ rest) = words ++ tokens rest := by
  induction words with
  | nil => rfl
  | cons word words ih =>
    rw [spaced_cons, List.cons_append, List.append_assoc, tokens_cons_of_isBlank rfl,
      tokens_append_of_isWord (h word List.mem_cons_self)
        (isBlank_head?_spaced_append words hrest),
      ih fun other hother => h other (List.mem_cons_of_mem word hother), List.cons_append]

/-- The tokens of a text of words are the words. -/
theorem tokens_spaced {words : List (List Char)} (h : ∀ word ∈ words, IsWord word) :
    tokens (spaced words) = words := by
  have hend : ∀ c ∈ ([] : List Char).head?, isBlank c = true := by simp
  have htokens := tokens_spaced_append h hend
  rwa [List.append_nil, tokens_nil, List.append_nil] at htokens

end Directive
