import Directive.Proofs.Scan.Parts
import Directive.Text.Blank

/-!
# Texts without separators

A text is whole where it stands if none of its characters is a separator there. Cutting a text at
its separators takes it apart into whole texts. Main facts:

* `Context.whole_append`: two texts in a row are whole if each is where it stands.
* `Context.parts_cases`: a text is whole, or it is cut at its first separator.
* `isWhole_of_mem_parts`: the parts of a directive are whole on their own.
* `parts_append_joint`: a pipe between two blanks after a closed text is a separator.
-/

namespace Directive

namespace Context

/-- No character of a text is a separator, in a context and between two characters. -/
def Whole (context : Context) (before : Option Char) (text : List Char) (after : Option Char) :
    Prop :=
  match text with
  | [] => True
  | c :: text =>
    context.separates before c (text.head?.or after) = false
      ∧ (context.feed c).Whole (some c) text after

theorem whole_nil (context : Context) (before after : Option Char) :
    context.Whole before [] after := trivial

theorem whole_cons {context : Context} {before after : Option Char} {c : Char}
    {text : List Char} :
    context.Whole before (c :: text) after
      ↔ context.separates before c (text.head?.or after) = false
        ∧ (context.feed c).Whole (some c) text after := Iff.rfl

/-- Two texts in a row are whole if each of them is where it stands. -/
theorem whole_append {context : Context} {before after : Option Char} {a b : List Char} :
    context.Whole before (a ++ b) after
      ↔ context.Whole before a (b.head?.or after)
        ∧ (context.read a).Whole (a.getLast?.or before) b after := by
  induction a generalizing context before with
  | nil => simp [whole_nil]
  | cons c a ih =>
    rw [List.cons_append, whole_cons, whole_cons, ih, head?_append_or, getLast?_cons_or,
      read_cons, and_assoc]

/-- Two characters matter to each other only if both are pipes. -/
theorem separates_before {context : Context} {before after : Option Char} {c : Char}
    (h : before ≠ some '|' ∨ c ≠ '|') :
    context.separates before c after = context.separates none c after := by
  rcases h with h | h
  · simp [separates, h]
  · rw [separates_of_ne h, separates_of_ne h]

theorem separates_after {context : Context} {before after : Option Char} {c : Char}
    (h : after ≠ some '|' ∨ c ≠ '|') :
    context.separates before c after = context.separates before c none := by
  rcases h with h | h
  · simp [separates, h]
  · rw [separates_of_ne h, separates_of_ne h]

/-- The character before a text matters only if it is a pipe and the text starts with one. -/
theorem whole_before {context : Context} {before after : Option Char} {text : List Char}
    (h : before ≠ some '|' ∨ text.head? ≠ some '|') :
    context.Whole before text after ↔ context.Whole none text after := by
  cases text with
  | nil => exact Iff.rfl
  | cons c text =>
    have hc : before ≠ some '|' ∨ c ≠ '|' := by simpa using h
    rw [whole_cons, whole_cons, separates_before hc]

/-- The character after a text matters only if it is a pipe and the text ends with one. -/
theorem whole_after {context : Context} {before after : Option Char} {text : List Char}
    (h : after ≠ some '|' ∨ text.getLast? ≠ some '|') :
    context.Whole before text after ↔ context.Whole before text none := by
  induction text generalizing context before with
  | nil => exact Iff.rfl
  | cons c text ih =>
    rw [whole_cons, whole_cons]
    cases text with
    | nil =>
      have hc : after ≠ some '|' ∨ c ≠ '|' := by simpa using h
      simp [separates_after hc, whole_nil]
    | cons d text =>
      rw [ih (by simpa using h)]
      simp

/-- Blank characters are no symbols. -/
theorem ofChar?_of_isBlank {c : Char} (h : Text.isBlank c = true) : Symbol.ofChar? c = none := by
  cases hsymbol : Symbol.ofChar? c with
  | none => rfl
  | some symbol =>
    obtain rfl := Symbol.ofChar?_eq_some_iff.mp hsymbol
    have hblank : Text.isBlank symbol.char = false := by
      rcases symbol with ⟨_ | _⟩ | ⟨_ | _ | _⟩ | ⟨_ | _ | _⟩ | _ <;> decide
    rw [hblank] at h
    cases h

/-- Characters that are no symbols leave the context as it is. -/
theorem read_of_none {text : List Char} (h : ∀ c ∈ text, Symbol.ofChar? c = none)
    (context : Context) : context.read text = context :=
  read_of_feed fun c hc => feed_of_none (h c hc) context

/-- Blank characters leave the context as it is. -/
theorem read_blanks {blanks : List Char} (h : ∀ c ∈ blanks, Text.isBlank c = true)
    (context : Context) : context.read blanks = context :=
  read_of_none (fun c hc => ofChar?_of_isBlank (h c hc)) context

/-- A text without pipes holds no separator. -/
theorem whole_of_not_mem {text : List Char} (h : '|' ∉ text) (context : Context)
    (before after : Option Char) : context.Whole before text after := by
  induction text generalizing context before with
  | nil => exact trivial
  | cons c text ih =>
    have hc : c ≠ '|' := fun hpipe => h (hpipe ▸ List.mem_cons_self)
    exact ⟨separates_of_ne hc, ih (fun hmem => h (List.mem_cons_of_mem c hmem)) _ _⟩

/-- A text is whole, or it is cut at its first separator. -/
theorem parts_cases (context : Context) (before after : Option Char) (text : List Char) :
    (context.Whole before text after ∧ context.parts before text after = [text])
      ∨ ∃ first rest, text = first ++ '|' :: rest ∧ context.Whole before first (some '|')
        ∧ context.read first = start ∧ first.getLast?.or before ≠ some '|'
        ∧ rest.head?.or after ≠ some '|'
        ∧ context.parts before text after = first :: start.parts (some '|') rest after := by
  induction text generalizing context before with
  | nil => exact Or.inl ⟨trivial, rfl⟩
  | cons c text ih =>
    have hne := parts_ne_nil (context.feed c) (some c) after text
    by_cases hc : context.separates before c (text.head?.or after) = true
    · -- the separator is the first character
      obtain ⟨rfl, hbefore, hafter, rfl⟩ := separates_iff.mp hc
      refine Or.inr ⟨[], text, rfl, trivial, rfl, by simpa using hbefore, hafter, ?_⟩
      have hglue := glue_separator [] hne
      rw [glue_empty _ (glue_ne_nil (List.cons_ne_nil _ _))] at hglue
      rw [parts_cons, if_pos hc, hglue]
      rfl
    · have hparts : context.parts before (c :: text) after
          = glue [[c]] ((context.feed c).parts (some c) text after) := by
        rw [parts_cons, if_neg hc]
      have hcfalse : context.separates before c (text.head?.or after) = false := by simpa using hc
      rcases ih (context.feed c) (some c) with ⟨hwhole, htext⟩ | ⟨first, rest, rfl, hwhole, hread,
          hlast, hafter, htext⟩
      · refine Or.inl ⟨⟨hcfalse, hwhole⟩, ?_⟩
        rw [hparts, htext]
        rfl
      · refine Or.inr ⟨c :: first, rest, rfl, ⟨?_, hwhole⟩, hread, ?_, hafter, ?_⟩
        · rwa [head?_append_or, List.head?_cons, Option.some_or] at hcfalse
        · rwa [getLast?_cons_or]
        · rw [hparts, htext]
          rfl

/-- A whole text is its only part. -/
theorem parts_of_whole {context : Context} {before after : Option Char} {text : List Char}
    (h : context.Whole before text after) : context.parts before text after = [text] := by
  induction text generalizing context before with
  | nil => rfl
  | cons c text ih =>
    obtain ⟨hc, htext⟩ := whole_cons.mp h
    rw [parts_cons, hc, ih htext]
    rfl

/-- The whole texts are those with one part. -/
theorem whole_iff_length_parts {context : Context} {before after : Option Char}
    {text : List Char} :
    context.Whole before text after ↔ (context.parts before text after).length = 1 := by
  constructor
  · intro h
    rw [parts_of_whole h]
    rfl
  · intro h
    rcases context.parts_cases before after text with ⟨hwhole, -⟩ | ⟨first, rest, -, -, -, -, -,
        hparts⟩
    · exact hwhole
    · rw [hparts, List.length_cons, Nat.succ.injEq] at h
      exact absurd (List.eq_nil_of_length_eq_zero h) (parts_ne_nil _ _ _ _)

end Context

/-! ## The parts of a directive -/

/-- No character of a text is a separator if the text stands alone. -/
def IsWhole (text : List Char) : Prop :=
  Context.start.Whole none text none

/-- The scan meets no separator in the whole texts. -/
theorem isWhole_iff {text : List Char} : IsWhole text ↔ (Pieces.ofText text).segments = [] := by
  unfold IsWhole
  rw [Context.whole_iff_length_parts]
  change (parts text).length = 1 ↔ _
  rw [length_parts, Nat.add_eq_right, List.length_eq_zero_iff]

/-- A text that is whole and read from the start, also behind a pipe and in front of one. -/
theorem Context.Whole.isWhole {before after : Option Char} {text : List Char}
    (h : start.Whole before text after) (hbefore : before ≠ some '|' ∨ text.head? ≠ some '|')
    (hafter : after ≠ some '|' ∨ text.getLast? ≠ some '|') : IsWhole text :=
  (whole_before hbefore).mp ((whole_after hafter).mp h)

/-- What is said of the parts of a text, one after the other: all but the last one leave nothing
open, and the last one leaves open what the text does. -/
theorem Context.parts_induction {motive : Option Char → List Char → Prop}
    (whole : ∀ before text, start.Whole before text none → motive before text)
    (cut : ∀ before first rest, start.Whole before first (some '|') → start.read first = start →
      first.getLast?.or before ≠ some '|' → rest.head? ≠ some '|' →
      start.parts before (first ++ '|' :: rest) none = first :: start.parts (some '|') rest none →
      motive (some '|') rest → motive before (first ++ '|' :: rest))
    (before : Option Char) (text : List Char) : motive before text := by
  induction hlength : text.length using Nat.strongRecOn generalizing before text with
  | ind n ih =>
    subst hlength
    rcases start.parts_cases before none text with ⟨hwhole, -⟩ | ⟨first, rest, rfl, hwhole, hread,
        hlast, hhead, hparts⟩
    · exact whole before text hwhole
    · rw [Option.or_none] at hhead
      exact cut before first rest hwhole hread hlast hhead hparts
        (ih rest.length (by simp; omega) (some '|') rest rfl)

/-- What stands between separators is whole on its own. -/
theorem Context.isWhole_of_mem_parts {before : Option Char} {text part : List Char}
    (hbefore : before ≠ some '|' ∨ text.head? ≠ some '|')
    (hpart : part ∈ start.parts before text none) : IsWhole part := by
  induction before, text using parts_induction with
  | whole before text hwhole =>
    rw [parts_of_whole hwhole, List.mem_singleton] at hpart
    rw [hpart]
    exact hwhole.isWhole hbefore (Or.inl (by simp))
  | cut before first rest hwhole hread hlast hhead hparts ih =>
    rw [hparts] at hpart
    rcases List.mem_cons.mp hpart with rfl | hpart
    · cases part with
      | nil => exact trivial
      | cons c part =>
        refine hwhole.isWhole (by simpa using hbefore) (Or.inr ?_)
        simpa [List.getLast?_cons] using hlast
    · exact ih (Or.inr hhead) hpart

/-- What stands in front of a separator leaves nothing open. -/
theorem Context.read_of_mem_dropLast_parts {before : Option Char} {text part : List Char}
    (hpart : part ∈ (start.parts before text none).dropLast) : start.read part = start := by
  induction before, text using parts_induction with
  | whole before text hwhole =>
    rw [parts_of_whole hwhole] at hpart
    simp at hpart
  | cut before first rest hwhole hread hlast hhead hparts ih =>
    rw [hparts, List.dropLast_cons_of_ne_nil (parts_ne_nil _ _ _ _)] at hpart
    rcases List.mem_cons.mp hpart with rfl | hpart
    · exact hread
    · exact ih hpart

/-- What stands after the last separator leaves open what the whole text leaves open. -/
theorem Context.read_getLast_parts (before : Option Char) (text : List Char) :
    ∀ part ∈ (start.parts before text none).getLast?, start.read part = start.read text := by
  induction before, text using parts_induction with
  | whole before text hwhole =>
    intro part hpart
    rw [parts_of_whole hwhole] at hpart
    obtain rfl : text = part := by simpa using hpart
    rfl
  | cut before first rest hwhole hread hlast hhead hparts ih =>
    intro part hpart
    have hpipe : start.feed '|' = start := rfl
    rw [hparts, List.getLast?_cons_of_ne_nil (parts_ne_nil _ _ _ _)] at hpart
    rw [ih part hpart, read_append, hread, read_cons, hpipe]

/-- The parts of a directive are whole on their own. -/
theorem isWhole_of_mem_parts {text part : List Char} (h : part ∈ parts text) : IsWhole part :=
  Context.isWhole_of_mem_parts (Or.inl (by simp)) h

/-- If the quotes of a directive close, those of each part do. -/
theorem quote_read_of_mem_parts {text part : List Char} (h : part ∈ parts text)
    (hclosed : (Context.start.read text).quote = none) :
    (Context.start.read part).quote = none := by
  have hne := Context.parts_ne_nil .start none none text
  rw [parts, ← List.dropLast_concat_getLast hne, List.mem_append, List.mem_singleton] at h
  -- only the last part may leave anything open
  rcases h with h | rfl
  · rw [Context.read_of_mem_dropLast_parts h]
    rfl
  · rwa [Context.read_getLast_parts none text _ (List.getLast?_eq_some_getLast _)]

/-- The character before a text matters only if it is a pipe and the text starts with one. -/
theorem Context.parts_before {context : Context} {before after : Option Char} {text : List Char}
    (h : before ≠ some '|' ∨ text.head? ≠ some '|') :
    context.parts before text after = context.parts none text after := by
  cases text with
  | nil => rfl
  | cons c text =>
    have hc : before ≠ some '|' ∨ c ≠ '|' := by simpa using h
    rw [parts_cons, parts_cons, separates_before hc]

/-- A blank in front belongs to the first part. -/
theorem Context.parts_blank (before : Option Char) (b : List Char) :
    start.parts before (' ' :: b) none = glue [[' ']] (Directive.parts b) := by
  have hblank : start.feed ' ' = start := rfl
  rw [parts_cons, separates_of_ne (by decide), hblank, parts_before (Or.inl (by simp))]
  rfl

/-- A pipe with nothing open and no pipe on either side is a separator. -/
theorem Context.parts_pipe {before : Option Char} {rest : List Char}
    (hbefore : before ≠ some '|') (hafter : rest.head? ≠ some '|') :
    start.parts before ('|' :: rest) none = [] :: Directive.parts rest := by
  have hpipe : start.feed '|' = start := rfl
  have hsep : start.separates before '|' (rest.head?.or none) = true :=
    separates_iff.mpr ⟨rfl, hbefore, by simpa using hafter, rfl⟩
  have hglue := glue_separator [] (Directive.parts_ne_nil rest)
  rw [glue_empty _ (glue_ne_nil (List.cons_ne_nil _ _))] at hglue
  rw [parts_cons, if_pos hsep, hpipe, parts_before (Or.inr hafter)]
  exact hglue

/-- A pipe in front of a blank, with nothing open and no pipe before it, is a separator. -/
theorem Context.parts_pipe_blank {before : Option Char} (hbefore : before ≠ some '|')
    (b : List Char) :
    start.parts before ('|' :: ' ' :: b) none = [] :: glue [[' ']] (Directive.parts b) := by
  rw [parts_pipe hbefore (by simp), Directive.parts, parts_blank]

/-- The character after a text matters only if it is a pipe and the text ends with one. -/
theorem Context.parts_after {context : Context} {before after : Option Char} {text : List Char}
    (h : after ≠ some '|' ∨ text.getLast? ≠ some '|') :
    context.parts before text after = context.parts before text none := by
  induction text generalizing context before with
  | nil => rfl
  | cons c text ih =>
    rw [parts_cons, parts_cons]
    cases text with
    | nil =>
      have hc : after ≠ some '|' ∨ c ≠ '|' := by simpa using h
      simp [separates_after hc]
    | cons d text =>
      rw [ih (by simpa using h)]
      rfl

/-- A pipe between two blanks, after a text that leaves nothing open, is a separator: the first
blank ends the last part of the text, and the second one starts what follows. -/
theorem parts_append_joint {a : List Char} (hread : Context.start.read a = .start)
    (b : List Char) :
    parts (a ++ ' ' :: '|' :: ' ' :: b) = glue (parts a) ([' '] :: glue [[' ']] (parts b)) := by
  have hblank : Context.start.feed ' ' = .start := rfl
  have hjoint : Context.start.parts (a.getLast?.or none) (' ' :: '|' :: ' ' :: b) none
      = [' '] :: glue [[' ']] (parts b) := by
    rw [Context.parts_cons, Context.separates_of_ne (by decide), hblank,
      Context.parts_pipe_blank (by simp)]
    rfl
  rw [parts, Context.parts_append, hread, hjoint, List.head?_cons, Option.some_or,
    Context.parts_after (Or.inl (by simp)), ← parts]

/-- A pipe between two blanks, after a whole text that leaves nothing open, is a separator. -/
theorem parts_joint {a : List Char} (hwhole : IsWhole a)
    (hread : Context.start.read a = .start) (b : List Char) :
    parts (a ++ ' ' :: '|' :: ' ' :: b) = (a ++ [' ']) :: glue [[' ']] (parts b) := by
  rw [parts_append_joint hread, parts, Context.parts_of_whole hwhole, glue_singleton_cons]

end Directive
