import Directive.Proofs.Scan.Parts
import Directive.Proofs.Text.Span

/-!
# Separators by their positions

What a separator is, said for a position of a text on its own and without a scan: a pipe that stands
alone, outside quotes, and with as many openers as closers of every kind before it. The one pass
over the bytes cuts a text at exactly these positions. Main facts:

* `isSeparator_iff`: where a character starts, a separator is what the scan takes for one.
* `spans_ofText`: the spans of a text run from each separator to the next one.
* `ofSeparators?_eq_parse`: a directive says what its stretches between separators say.
-/

namespace Directive

open Text (Span utf8 byteLength takeBytes?)

/-- The byte of a pipe. -/
def pipeByte : UInt8 :=
  0x7C

/-- A condition on all kinds of brackets is decided kind by kind. -/
instance {p : Bracket → Prop} [DecidablePred p] : Decidable (∀ bracket, p bracket) :=
  decidable_of_iff (p .paren ∧ p .square ∧ p .curly)
    ⟨fun h bracket => by cases bracket <;> simp [h], fun h => ⟨h _, h _, h _⟩⟩

/-- The byte at an offset is a separator of the text. -/
structure IsSeparator (text : List Char) (offset : Nat) : Prop where
  /-- It is a pipe. -/
  pipe : (utf8 text)[offset]? = some pipeByte
  /-- The byte before it is no pipe. -/
  before : offset = 0 ∨ (utf8 text)[offset - 1]? ≠ some pipeByte
  /-- The byte after it is no pipe. -/
  after : (utf8 text)[offset + 1]? ≠ some pipeByte
  /-- The characters before it leave no quote open, and outside quotes they hold as many openers as
  closers of every kind. -/
  closed : ∃ lead ∈ takeBytes? offset text, openQuote lead = none ∧
    ∀ bracket : Bracket,
      (unquoted lead).count bracket.opener = (unquoted lead).count bracket.closer

instance (text : List Char) (offset : Nat) : Decidable (IsSeparator text offset) :=
  decidable_of_iff
    ((utf8 text)[offset]? = some pipeByte ∧
      (offset = 0 ∨ (utf8 text)[offset - 1]? ≠ some pipeByte) ∧
      (utf8 text)[offset + 1]? ≠ some pipeByte ∧
      ∃ lead ∈ takeBytes? offset text, openQuote lead = none ∧
        ∀ bracket : Bracket,
          (unquoted lead).count bracket.opener = (unquoted lead).count bracket.closer)
    ⟨fun h => ⟨h.1, h.2.1, h.2.2.1, h.2.2.2⟩, fun h => ⟨h.pipe, h.before, h.after, h.closed⟩⟩

/-- The separators of a text, from left to right. -/
def separators (text : List Char) : List Nat :=
  (List.range (byteLength text)).filter fun offset => IsSeparator text offset

/-- The stretches between separators: from `start` to the first of them, from just after each of
them to the next one, and from the last one to the end of the text. -/
def stretches (start : Nat) (stops : List Nat) (length : Nat) : List Span :=
  match stops with
  | [] => [⟨start, length⟩]
  | stop :: stops => ⟨start, stop⟩ :: stretches (stop + 1) stops length

/-- What a directive says, given its separators. Without one all of it is the expression. Otherwise
the expression stands before the first one, and the stretches after them hold the filters. There is
no answer if a stretch has no slice. -/
def Descriptor.ofSeparators? (text : List Char) : List Nat → Option Descriptor
  | [] => some ⟨String.ofList (Text.trim text), none⟩
  | first :: stops => do
    let expression ← Span.slice? ⟨0, first⟩ text
    let segments ← (stretches (first + 1) stops (byteLength text)).mapM (·.slice? text)
    return ⟨String.ofList (Text.trim expression),
      unlessEmpty (segments.filterMap Filter.ofSegment?)⟩

/-- The separators are the offsets that are separators. -/
theorem mem_separators {text : List Char} {offset : Nat} :
    offset ∈ separators text ↔ IsSeparator text offset := by
  constructor
  · intro h
    simpa using (List.mem_filter.mp h).2
  · intro h
    refine List.mem_filter.mpr ⟨?_, by simpa using h⟩
    obtain ⟨hlt, -⟩ := List.getElem?_eq_some_iff.mp h.pipe
    exact List.mem_range.mpr hlt

/-- The separators are in order. -/
theorem separators_sorted (text : List Char) : (separators text).Pairwise (· < ·) :=
  List.pairwise_lt_range.sublist List.filter_sublist

/-! ## Pipes among the bytes -/

/-- The byte of a pipe is a byte of a pipe only. -/
theorem pipeByte_mem_utf8EncodeChar {c : Char} :
    pipeByte ∈ String.utf8EncodeChar c ↔ c = '|' :=
  Text.toUInt8_mem_utf8EncodeChar (show '|'.toNat < 0x80 by decide)

theorem length_le_byteLength (text : List Char) : text.length ≤ byteLength text := by
  induction text with
  | nil => simp
  | cons c text ih =>
    have hpos := c.utf8Size_pos
    rw [List.length_cons, Text.byteLength_cons]
    omega

/-! ## The scan finds the separators -/

/-- The bytes of a text that leads up to a character and of that character. -/
theorem getElem?_utf8_char (lead rest : List Char) (c : Char) {n : Nat} (h : n < c.utf8Size) :
    (utf8 (lead ++ c :: rest))[byteLength lead + n]? = (String.utf8EncodeChar c)[n]? := by
  have hlength : n < (String.utf8EncodeChar c).length := by simpa using h
  rw [Text.utf8_append, Text.utf8_cons]
  change (utf8 lead ++ (String.utf8EncodeChar c ++ utf8 rest))[(utf8 lead).length + n]? = _
  rw [List.getElem?_append_right (Nat.le_add_right _ _), Nat.add_sub_cancel_left,
    List.getElem?_append_left hlength]

/-- The byte where a character starts is that of a pipe if the character is one. -/
theorem byteAt_iff {lead rest : List Char} {c : Char} :
    (utf8 (lead ++ c :: rest))[byteLength lead]? = some pipeByte ↔ c = '|' := by
  rw [← Nat.add_zero (byteLength lead), getElem?_utf8_char lead rest c c.utf8Size_pos]
  constructor
  · intro h
    exact pipeByte_mem_utf8EncodeChar.mp (List.mem_of_getElem? h)
  · rintro rfl
    rfl

/-- The byte before a character is that of a pipe if the character before it is one. -/
theorem byteBefore_iff {lead rest : List Char} {c : Char} :
    (byteLength lead = 0 ∨ (utf8 (lead ++ c :: rest))[byteLength lead - 1]? ≠ some pipeByte)
      ↔ lead.getLast? ≠ some '|' := by
  rcases Nat.eq_zero_or_pos (byteLength lead) with hzero | hpos
  · -- every character has a byte, so that there is no character either
    simp [Text.eq_nil_of_byteLength_eq_zero hzero]
  · have hbyte : (utf8 (lead ++ c :: rest))[byteLength lead - 1]? = (utf8 lead).getLast? := by
      rw [Text.utf8_append, List.getElem?_append_left (by change _ < byteLength lead; omega),
        List.getLast?_eq_getElem?]
      rfl
    rw [hbyte, ne_eq, show pipeByte = '|'.toUInt8 from rfl,
      Text.getLast?_utf8_eq_some_iff (by decide)]
    simp [Nat.ne_of_gt hpos]

/-- The byte after a pipe is that of a pipe if the character after it is one. -/
theorem byteAfter_iff {lead rest : List Char} :
    (utf8 (lead ++ '|' :: rest))[byteLength lead + 1]? ≠ some pipeByte
      ↔ rest.head? ≠ some '|' := by
  have hbyte : (utf8 (lead ++ '|' :: rest))[byteLength lead + 1]? = (utf8 rest).head? := by
    rw [Text.utf8_append, Text.utf8_cons]
    change (utf8 lead ++ (['|'].flatMap String.utf8EncodeChar ++ utf8 rest))[(utf8 lead).length
      + 1]? = _
    rw [List.getElem?_append_right (Nat.le_add_right _ _), Nat.add_sub_cancel_left,
      List.head?_eq_getElem?]
    rfl
  rw [hbyte, ne_eq, show pipeByte = '|'.toUInt8 from rfl, Text.head?_utf8_eq_some_iff (by decide)]

/-- Where a character starts, a separator is what the scan takes for one. -/
theorem isSeparator_iff {lead rest : List Char} {c : Char}
    (hsize : byteLength (lead ++ c :: rest) < 2 ^ 31) :
    IsSeparator (lead ++ c :: rest) (byteLength lead)
      ↔ (Context.start.read lead).separates lead.getLast? c rest.head? = true := by
  -- a text with fewer bytes has fewer characters, so that no depth wraps around
  have hlead : lead.length < 2 ^ 31 := by
    have hle := length_le_byteLength lead
    rw [Text.byteLength_append] at hsize
    omega
  have hclosed : (∃ before ∈ takeBytes? (byteLength lead) (lead ++ c :: rest),
      openQuote before = none ∧ ∀ bracket : Bracket,
        (unquoted before).count bracket.opener = (unquoted before).count bracket.closer)
        ↔ Context.start.read lead = .start := by
    rw [Text.takeBytes?_append, Context.read_start_eq_start_iff hlead]
    simp
  rw [Context.separates_iff]
  constructor
  · rintro ⟨hpipe, hbefore, hafter, hquote⟩
    obtain rfl := byteAt_iff.mp hpipe
    exact ⟨rfl, byteBefore_iff.mp hbefore, byteAfter_iff.mp hafter, hclosed.mp hquote⟩
  · rintro ⟨rfl, hbefore, hafter, hquote⟩
    exact ⟨byteAt_iff.mpr rfl, byteBefore_iff.mpr hbefore, byteAfter_iff.mpr hafter,
      hclosed.mpr hquote⟩

/-- Inside a character there is no separator. -/
theorem not_isSeparator_inside {lead rest : List Char} {c : Char} {n : Nat} (hpos : 0 < n)
    (hlt : n < c.utf8Size) : ¬IsSeparator (lead ++ c :: rest) (byteLength lead + n) := by
  intro h
  have hbyte := h.pipe
  rw [getElem?_utf8_char lead rest c hlt] at hbyte
  obtain rfl : c = '|' := pipeByte_mem_utf8EncodeChar.mp (List.mem_of_getElem? hbyte)
  have hsize : '|'.utf8Size = 1 := rfl
  omega

/-- The separators of a text from an offset on where a character starts. -/
def separatorsFrom (lead rest : List Char) : List Nat :=
  (List.range' (byteLength lead) (byteLength rest)).filter fun offset =>
    IsSeparator (lead ++ rest) offset

theorem separatorsFrom_cons {lead rest : List Char} {c : Char}
    (hsize : byteLength (lead ++ c :: rest) < 2 ^ 31) :
    separatorsFrom lead (c :: rest)
      = if (Context.start.read lead).separates lead.getLast? c rest.head? then
          byteLength lead :: separatorsFrom (lead ++ [c]) rest
        else separatorsFrom (lead ++ [c]) rest := by
  obtain ⟨n, hn⟩ : ∃ n, c.utf8Size = n + 1 :=
    Nat.exists_eq_succ_of_ne_zero (Nat.ne_of_gt c.utf8Size_pos)
  have htext : lead ++ c :: rest = lead ++ [c] ++ rest := by simp
  -- the offset of the character, those inside it, and those of the characters after it
  have hrange : List.range' (byteLength lead) (byteLength (c :: rest))
      = byteLength lead :: (List.range' (byteLength lead + 1) n
        ++ List.range' (byteLength (lead ++ [c])) (byteLength rest)) := by
    have hlength : byteLength (c :: rest) = n + byteLength rest + 1 := by
      rw [Text.byteLength_cons, hn]
      omega
    have hstart : byteLength (lead ++ [c]) = byteLength lead + 1 + n := by
      simp [hn]
      omega
    rw [hlength, List.range'_succ, hstart, List.range'_append_1]
  -- the bytes after the first one of a character are no pipes
  have hinside : (List.range' (byteLength lead + 1) n).filter
      (fun offset => IsSeparator (lead ++ c :: rest) offset) = [] := by
    rw [List.filter_eq_nil_iff]
    intro offset hoffset
    obtain ⟨hle, hlt⟩ := List.mem_range'_1.mp hoffset
    obtain ⟨k, rfl⟩ := Nat.exists_eq_add_of_le hle
    rw [Nat.add_assoc, decide_eq_true_eq]
    exact not_isSeparator_inside (by omega) (by omega)
  have hhere : decide (IsSeparator (lead ++ c :: rest) (byteLength lead))
      = (Context.start.read lead).separates lead.getLast? c rest.head? := by
    rw [Bool.eq_iff_iff, decide_eq_true_iff]
    exact isSeparator_iff hsize
  unfold separatorsFrom
  rw [hrange, List.filter_cons, List.filter_append, hinside, List.nil_append, hhere]
  simp only [htext]

/-- The spans that a scan ends with: those that were closed at its start, and then the stretches
between the separators from there on. -/
theorem Scan.spans_run (scan : Scan) (lead rest : List Char)
    (hcontext : scan.context = Context.start.read lead)
    (hbefore : scan.before = lead.getLast?.bind Symbol.ofChar?)
    (hposition : scan.position = byteLength lead)
    (hsize : byteLength (lead ++ rest) < 2 ^ 31) :
    (scan.run (symbols rest)).spans
      = scan.closed.reverse
        ++ stretches scan.start (separatorsFrom lead rest) (byteLength (lead ++ rest)) := by
  induction rest generalizing scan lead with
  | nil => simp [spans, run, stretches, separatorsFrom, hposition]
  | cons c rest ih =>
    have htext : lead ++ c :: rest = lead ++ [c] ++ rest := by simp
    have hsep := scan.separates_ofChar? hbefore c rest.head?
    rw [run_symbols_cons, separatorsFrom_cons hsize, ← hcontext]
    by_cases hc : scan.context.separates lead.getLast? c rest.head? = true
    -- a separator is a pipe, so that the next stretch starts one byte further
    · have hone : c.utf8Size = 1 := by
        rw [(Context.separates_iff.mp hc).1]
        rfl
      rw [htext, ih _ (lead ++ [c])]
      · simp [stepChar, hsep, hc, stretches, hposition]
      · simp [hcontext]
      · simp [stepChar, hsep, hc]
      · simp [stepChar, hsep, hc, hposition]
      · rwa [← htext]
    · rw [htext, ih _ (lead ++ [c])]
      · simp [stepChar, hsep, hc]
      · simp [hcontext]
      · simp [stepChar, hsep, hc]
      · simp [stepChar, hsep, hc, hposition]
      · rwa [← htext]

/-- The spans of a text are its stretches between separators. -/
theorem spans_ofText {text : List Char} (hsize : byteLength text < 2 ^ 31) :
    (Pieces.ofText text).expression :: (Pieces.ofText text).segments
      = stretches 0 (separators text) (byteLength text) := by
  have hseparators : separatorsFrom [] text = separators text := by
    simp [separatorsFrom, separators, List.range_eq_range']
  have h := Scan.spans_run .init [] text rfl rfl rfl hsize
  rw [hseparators, ← Scan.pieces_eq_spans] at h
  exact h

/-- Slices that are taken one by one are taken all at once. -/
theorem mapM_slice? {text : List Char} {spans : List Span} {slices : List (List Char)}
    (h : spans.map (·.slice? text) = slices.map some) :
    spans.mapM (·.slice? text) = some slices := by
  induction spans generalizing slices with
  | nil =>
    obtain rfl : slices = [] := by simpa using h.symm
    rfl
  | cons span spans ih =>
    cases slices with
    | nil => simp at h
    | cons slice slices =>
      rw [List.map_cons, List.map_cons, List.cons.injEq] at h
      simp [List.mapM_cons, h.1, ih h.2]

/-- The one pass over the bytes of a directive is its description by separators: all stretches
between them have slices, and what these say is what the directive says. -/
theorem ofSeparators?_eq_parse (raw : String) (hsize : byteLength raw.toList < 2 ^ 31) :
    Descriptor.ofSeparators? raw.toList (separators raw.toList) = some (Descriptor.parse raw) := by
  have hslices := slice?_ofText raw.toList
  rw [spans_ofText hsize] at hslices
  rw [Descriptor.parse_eq_ofParts]
  cases hseparators : separators raw.toList with
  | nil =>
    -- the only stretch is the whole text
    have hwhole := Span.slice?_middle [] raw.toList []
    simp only [Text.byteLength_nil, Nat.zero_add, List.nil_append, List.append_nil] at hwhole
    rw [hseparators, stretches, List.map_cons, List.map_nil, hwhole] at hslices
    have hparts : parts raw.toList = [raw.toList] := by
      refine List.map_injective_iff.mpr (fun _ _ h => Option.some.inj h) ?_
      exact hslices.symm
    rw [hparts]
    rfl
  | cons first stops =>
    rw [hseparators, stretches, List.map_cons] at hslices
    cases hparts : parts raw.toList with
    | nil => exact absurd hparts (Context.parts_ne_nil _ _ _ _)
    | cons expression segments =>
      rw [hparts, List.map_cons, List.cons.injEq] at hslices
      simp [Descriptor.ofSeparators?, hslices.1, mapM_slice? hslices.2, Descriptor.ofParts]

/-- A doubled pipe, a pipe in quotes and a pipe in brackets are no separators, and the blanks next
to the two separators belong to no expression and no filter. -/
theorem ofSeparators?_mixed :
    byteLength "x || (y|z) |\tf '|' \u2003| g ".toList < 2 ^ 31
      ∧ separators "x || (y|z) |\tf '|' \u2003| g ".toList = [11, 22]
      ∧ Descriptor.ofSeparators? "x || (y|z) |\tf '|' \u2003| g ".toList [11, 22]
        = some ⟨"x || (y|z)", some [⟨"f", some [.literal "|"]⟩, ⟨"g", none⟩]⟩ := by
  have hsize : byteLength "x || (y|z) |\tf '|' \u2003| g ".toList < 2 ^ 31 := by decide
  have hseparators : separators "x || (y|z) |\tf '|' \u2003| g ".toList = [11, 22] := by
    decide +kernel
  have hparse : Descriptor.parse "x || (y|z) |\tf '|' \u2003| g "
      = ⟨"x || (y|z)", some [⟨"f", some [.literal "|"]⟩, ⟨"g", none⟩]⟩ := by decide +kernel
  have hsame := ofSeparators?_eq_parse "x || (y|z) |\tf '|' \u2003| g " hsize
  rw [hseparators, hparse] at hsame
  exact ⟨hsize, hseparators, hsame⟩

end Directive
