import Directive.Descriptor.Parser
import Directive.Proofs.Scan.Bytes
import Directive.Proofs.Scan.Depth

/-!
# The parts of a text

Separators cut a text into parts, one more than there are separators. Here the parts are read off
the characters of the text. The scan over bytes finds exactly these parts, and cutting two texts
that stand one after the other is cutting each of them where it stands. Main facts:

* `Context.parts_append`: the parts of two texts in a row, from the parts of each.
* `slice?_ofText`: the spans found in the bytes of a text all have slices, which are its parts.
* `Descriptor.parse_eq_ofParts`: a directive says what its parts say.
-/

namespace Directive

open Text (Span)

namespace Context

/-- Whether a character is a separator where it stands: `before` and `after` are its neighbours. -/
def separates (context : Context) (before : Option Char) (c : Char) (after : Option Char) : Bool :=
  c = '|' && before ≠ some '|' && after ≠ some '|' && context.isTop

theorem separates_iff {context : Context} {before after : Option Char} {c : Char} :
    context.separates before c after = true
      ↔ c = '|' ∧ before ≠ some '|' ∧ after ≠ some '|' ∧ context = start := by
  simp [separates, isTop, and_assoc]

theorem separates_of_ne {context : Context} {before after : Option Char} {c : Char}
    (h : c ≠ '|') : context.separates before c after = false := by
  simp [separates, h]

end Context

/-! ## Joining runs of parts -/

/-- Two runs of parts in a row: the last part of the first run and the first part of the second one
are one part. -/
def glue : List (List Char) → List (List Char) → List (List Char)
  | [], others => others
  | [part], [] => [part]
  | [part], first :: others => (part ++ first) :: others
  | part :: next :: parts, others => part :: glue (next :: parts) others

@[simp] theorem glue_singleton_cons (part first : List Char) (others : List (List Char)) :
    glue [part] (first :: others) = (part ++ first) :: others := rfl

theorem glue_cons {part : List Char} {parts others : List (List Char)} (h : parts ≠ []) :
    glue (part :: parts) others = part :: glue parts others := by
  cases parts with
  | nil => exact absurd rfl h
  | cons next parts => rfl

@[simp] theorem glue_nil (parts : List (List Char)) : glue parts [] = parts := by
  induction parts with
  | nil => rfl
  | cons part parts ih =>
    cases parts with
    | nil => rfl
    | cons next parts => rw [glue_cons (by simp), ih]

theorem glue_ne_nil {parts others : List (List Char)} (h : parts ≠ []) :
    glue parts others ≠ [] := by
  cases parts with
  | nil => exact absurd rfl h
  | cons part parts => cases parts <;> cases others <;> simp [glue]

@[simp] theorem glue_empty (parts : List (List Char)) (h : parts ≠ []) :
    glue [[]] parts = parts := by
  cases parts with
  | nil => exact absurd rfl h
  | cons part parts => rfl

theorem glue_assoc (a b c : List (List Char)) : glue (glue a b) c = glue a (glue b c) := by
  induction a with
  | nil => rfl
  | cons part a ih =>
    cases a with
    | cons next a =>
      have hne : next :: a ≠ [] := List.cons_ne_nil next a
      rw [glue_cons hne, glue_cons (glue_ne_nil hne), glue_cons hne, ih]
    | nil =>
      cases b with
      | nil => simp [glue]
      | cons first b =>
        cases b with
        | nil => cases c <;> simp [glue]
        | cons next b => rfl

/-- A separator between two runs of parts keeps them apart. -/
theorem glue_separator (part : List Char) {parts : List (List Char)} (h : parts ≠ []) :
    glue [part] (glue [[], []] parts) = part :: parts := by
  cases parts with
  | nil => exact absurd rfl h
  | cons first parts => simp [glue]

/-- A first part that is longer at its start. -/
theorem glue_append (a b : List Char) (parts : List (List Char)) (h : parts ≠ []) :
    glue [a ++ b] parts = glue [a] (glue [b] parts) := by
  cases parts with
  | nil => exact absurd rfl h
  | cons part parts => simp

/-! ## The parts of a text -/

namespace Context

/-- The parts that its separators cut a text into, in a context and between two characters. -/
def parts (context : Context) (before : Option Char) (text : List Char) (after : Option Char) :
    List (List Char) :=
  match text with
  | [] => [[]]
  | c :: text =>
    glue (if context.separates before c (text.head?.or after) then [[], []] else [[c]])
      ((context.feed c).parts (some c) text after)

@[simp] theorem parts_nil (context : Context) (before after : Option Char) :
    context.parts before [] after = [[]] := rfl

theorem parts_cons (context : Context) (before after : Option Char) (c : Char)
    (text : List Char) :
    context.parts before (c :: text) after
      = glue (if context.separates before c (text.head?.or after) then [[], []] else [[c]])
        ((context.feed c).parts (some c) text after) := rfl

theorem parts_ne_nil (context : Context) (before after : Option Char) (text : List Char) :
    context.parts before text after ≠ [] := by
  cases text with
  | nil => simp
  | cons c text =>
    rw [parts_cons]
    exact glue_ne_nil (by split <;> simp)

/-- What follows the start of two texts in a row. -/
theorem head?_append_or (a b : List Char) (after : Option Char) :
    (a ++ b).head?.or after = a.head?.or (b.head?.or after) := by
  cases a <;> simp

/-- What comes before the end of a longer text. -/
theorem getLast?_cons_or (c : Char) (a : List Char) (before : Option Char) :
    (c :: a).getLast?.or before = a.getLast?.or (some c) := by
  cases hlast : a.getLast? <;> simp [List.getLast?_cons, hlast]

/-- The parts of two texts in a row are the parts of each where it stands. -/
theorem parts_append (context : Context) (before after : Option Char) (a b : List Char) :
    context.parts before (a ++ b) after
      = glue (context.parts before a (b.head?.or after))
        ((context.read a).parts (a.getLast?.or before) b after) := by
  induction a generalizing context before with
  | nil => simp [parts_ne_nil]
  | cons c a ih =>
    rw [List.cons_append, parts_cons, parts_cons, ih, ← glue_assoc, head?_append_or,
      getLast?_cons_or, read_cons]

end Context

/-! ## The scan over bytes finds the parts -/

namespace Scan

/-- The spans closed so far and the open one, from left to right. -/
def spans (scan : Scan) : List Span :=
  scan.closed.reverse ++ [⟨scan.start, scan.position⟩]

theorem pieces_eq_spans (scan : Scan) :
    scan.pieces.expression :: scan.pieces.segments = scan.spans := by
  unfold pieces spans
  split <;> simp_all

/-- Reads one character: `after` is the character that follows it. -/
def stepChar (scan : Scan) (c : Char) (after : Option Char) : Scan :=
  let next := { scan with
    context := scan.context.feed c
    before := Symbol.ofChar? c
    position := scan.position + c.utf8Size }
  if scan.separates (Symbol.ofChar? c) (after.bind Symbol.ofChar?) then
    { next with
      start := scan.position + 1
      closed := ⟨scan.start, scan.position⟩ :: scan.closed }
  else
    next

/-- The bytes of a character after the first one only move the position. -/
theorem run_replicate_none (scan : Scan) (n : Nat) (rest : List (Option Symbol))
    (h : n = 0 ∨ scan.before = none) :
    scan.run (List.replicate n none ++ rest)
      = { scan with position := scan.position + n }.run rest := by
  induction n generalizing scan with
  | zero => rfl
  | succ n ih =>
    -- no symbol is here, so that nothing is closed and the context stays
    have hbefore : scan.before = none := h.resolve_left (Nat.succ_ne_zero n)
    have hstep (after : Option Symbol) :
        scan.step none after = { scan with position := scan.position + 1 } := by
      simp [step, separates, hbefore]
    rw [List.replicate_succ, List.cons_append, run, hstep,
      ih { scan with position := scan.position + 1 } (Or.inr hbefore)]
    simp only [Nat.add_assoc, Nat.add_comm 1 n]

theorem head?_symbols (text : List Char) :
    (symbols text).head?.join = text.head?.bind Symbol.ofChar? := by
  cases text with
  | nil => rfl
  | cons c text => simp [symbols_cons]

theorem bind_ofChar?_eq_pipe {c : Option Char} :
    c.bind Symbol.ofChar? = some .pipe ↔ c = some '|' := by
  cases c with
  | none => simp
  | some c =>
    rw [Option.bind_some, Symbol.ofChar?_eq_some_iff, Option.some_inj]
    rfl

/-- A text is read one character at a time. -/
theorem run_symbols_cons (scan : Scan) (c : Char) (text : List Char) :
    scan.run (symbols (c :: text)) = (scan.stepChar c text.head?).run (symbols text) := by
  rw [symbols_cons, run]
  by_cases hc : c = '|'
  · -- a pipe is one byte, so that the byte after it is the first one of the next character
    subst hc
    have hsize : '|'.utf8Size - 1 = 0 := rfl
    rw [hsize, List.replicate_zero, List.nil_append, head?_symbols]
    rfl
  · have hpipe : Symbol.ofChar? c ≠ some .pipe := fun h => hc (Symbol.ofChar?_eq_some_iff.mp h)
    have hsep (after : Option Symbol) : scan.separates (Symbol.ofChar? c) after = false := by
      simp [separates, hpipe]
    -- a symbol is one byte, and the bytes of any other character are no symbols
    have hpos := c.utf8Size_pos
    have hnone : c.utf8Size - 1 = 0 ∨ Symbol.ofChar? c = none := by
      rcases Nat.lt_or_ge c.toNat 0x80 with h | h
      · left
        rw [← String.length_utf8EncodeChar, Text.utf8EncodeChar_of_lt h]
        rfl
      · exact Or.inr (Symbol.ofChar?_eq_none_of_le h)
    rw [run_replicate_none]
    · have hmove : scan.position + 1 + (c.utf8Size - 1) = scan.position + c.utf8Size := by omega
      simp [step, stepChar, hsep, hmove, Context.feed]
    · simpa [step, hsep] using hnone

/-- On characters and on bytes a separator is found alike. -/
theorem separates_ofChar? (scan : Scan) {before : Option Char}
    (hbefore : scan.before = before.bind Symbol.ofChar?) (c : Char) (after : Option Char) :
    scan.separates (Symbol.ofChar? c) (after.bind Symbol.ofChar?)
      = scan.context.separates before c after := by
  rw [Bool.eq_iff_iff, Context.separates_iff]
  simp only [separates, hbefore, ne_eq, Bool.and_eq_true, decide_eq_true_eq, decide_not,
    Bool.not_eq_true', decide_eq_false_iff_not, bind_ofChar?_eq_pipe, Context.isTop, and_assoc]
  rw [Symbol.ofChar?_eq_some_iff]
  rfl

/-- The spans that a scan ends with: those that were closed at its start, and then the parts of the
text from there on, the first of them with the open part `part` in front. -/
theorem slice?_spans_run (scan : Scan) (before : Option Char) (lead part rest : List Char)
    (hbefore : scan.before = before.bind Symbol.ofChar?)
    (hstart : scan.start = Text.byteLength lead)
    (hposition : scan.position = Text.byteLength lead + Text.byteLength part) :
    (scan.run (symbols rest)).spans.map (·.slice? (lead ++ (part ++ rest)))
      = scan.closed.reverse.map (·.slice? (lead ++ (part ++ rest)))
        ++ (glue [part] (scan.context.parts before rest none)).map some := by
  induction rest generalizing scan before lead part with
  | nil =>
    have hslice := Span.slice?_middle lead part []
    rw [List.append_nil] at hslice
    simp [spans, run, hstart, hposition, hslice]
  | cons c rest ih =>
    rw [run_symbols_cons]
    have hsep := scan.separates_ofChar? hbefore c rest.head?
    have hread : scan.context.parts before (c :: rest) none
        = glue (if scan.context.separates before c rest.head? then [[], []] else [[c]])
          ((scan.context.feed c).parts (some c) rest none) := by
      rw [Context.parts_cons, Option.or_none]
    by_cases hc : scan.context.separates before c rest.head? = true
    · -- the open part ends here, and the next one starts after the pipe
      obtain rfl : c = '|' := (Context.separates_iff.mp hc).1
      have htext : lead ++ (part ++ '|' :: rest) = (lead ++ part ++ ['|']) ++ ([] ++ rest) := by
        simp
      have hpipe : Text.byteLength ['|'] = 1 := rfl
      have hsize : '|'.utf8Size = 1 := rfl
      have hslice : (Span.mk scan.start scan.position).slice? (lead ++ (part ++ '|' :: rest))
          = some part := by
        rw [hstart, hposition]
        exact Span.slice?_middle lead part ('|' :: rest)
      rw [htext] at hslice ⊢
      rw [ih _ (some '|') (lead ++ part ++ ['|']) []]
      · rw [hread, if_pos hc]
        have hne := Context.parts_ne_nil (scan.context.feed '|') (some '|') none rest
        simp only [stepChar, hsep, hc, ↓reduceIte, List.reverse_cons, List.map_append,
          List.map_cons, List.map_nil, hslice]
        rw [glue_empty _ hne, glue_separator part hne]
        simp
      · simp [stepChar, hsep, hc]
      · simp [stepChar, hsep, hc, hposition, hpipe, Nat.add_assoc]
      · simp [stepChar, hsep, hc, hposition, hpipe, hsize, Nat.add_assoc]
    · have htext : lead ++ (part ++ c :: rest) = lead ++ ((part ++ [c]) ++ rest) := by simp
      rw [htext, ih _ (some c) lead (part ++ [c])]
      · rw [hread, if_neg hc, glue_append _ _ _ (Context.parts_ne_nil _ _ _ _)]
        simp [stepChar, hsep, hc]
      · simp [stepChar, hsep, hc]
      · simpa [stepChar, hsep, hc] using hstart
      · simp [stepChar, hsep, hc, hposition, Nat.add_assoc]

@[simp] theorem context_stepChar (scan : Scan) (c : Char) (after : Option Char) :
    (scan.stepChar c after).context = scan.context.feed c := by
  unfold stepChar
  split <;> rfl

/-- The context that a scan of bytes ends in is read off the characters. -/
theorem context_run (scan : Scan) (text : List Char) :
    (scan.run (symbols text)).context = scan.context.read text := by
  induction text generalizing scan with
  | nil => rfl
  | cons c text ih =>
    rw [run_symbols_cons, ih, context_stepChar, Context.read_cons]

end Scan

/-- The parts of a directive. -/
def parts (text : List Char) : List (List Char) :=
  Context.start.parts none text none

theorem parts_ne_nil (text : List Char) : parts text ≠ [] :=
  Context.parts_ne_nil _ _ _ _

/-- The spans found in the bytes of a text all have slices, and these are the parts of the text. -/
theorem slice?_ofText (text : List Char) :
    ((Pieces.ofText text).expression :: (Pieces.ofText text).segments).map (·.slice? text)
      = (parts text).map some := by
  have h := Scan.slice?_spans_run .init none [] [] text rfl rfl rfl
  rw [glue_empty _ (Context.parts_ne_nil _ _ _ _), ← Scan.pieces_eq_spans] at h
  exact h

/-- A text has one part more than it has separators. -/
theorem length_parts (text : List Char) :
    (parts text).length = (Pieces.ofText text).segments.length + 1 := by
  simpa using (congrArg List.length (slice?_ofText text)).symm

/-- What the parts of a directive say. -/
def Descriptor.ofParts : List (List Char) → Descriptor
  | [] => ⟨"", none⟩
  | expression :: segments =>
    ⟨String.ofList (Text.trim expression), unlessEmpty (segments.filterMap Filter.ofSegment?)⟩

/-- A directive says what its parts say. -/
theorem Descriptor.parse_eq_ofParts (raw : String) :
    Descriptor.parse raw = ofParts (parts raw.toList) := by
  have hslices := slice?_ofText raw.toList
  cases hparts : parts raw.toList with
  | nil => exact absurd hparts (parts_ne_nil raw.toList)
  | cons expression segments =>
    rw [hparts, List.map_cons, List.map_cons, List.cons.injEq] at hslices
    obtain ⟨hexpression, hsegments⟩ := hslices
    -- every span has a slice, so that cutting it out gives the part
    have hcut : (Pieces.ofText raw.toList).segments.map (·.cut raw.toList) = segments := by
      have h := congrArg (List.map (·.getD [])) hsegments
      simpa [Function.comp_def, Span.cut] using h
    simp only [parse, ofPieces, ofParts, Span.cut, hexpression, Option.getD_some]
    rw [← hcut, List.filterMap_map]
    rfl

end Directive
