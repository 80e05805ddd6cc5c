import Directive.Proofs.Descriptor.WellFormed
import Directive.Proofs.Scan.Characters

/-!
# Blanks around separators

What a directive says depends on its parts without the blanks around them. Blanks in front of a text
go into its first part, and blanks behind it into its last part; at a separator one text ends and
another one starts. So blanks at these places say nothing, whatever the text leaves open.
Main facts:

* `Descriptor.parse_eq_of_trimmedParts`: directives with the same trimmed parts say the same.
* `parts_separator`: a separator keeps the parts of the texts on its two sides apart.
* `Scan.exists_of_mem_found`: what stands on the two sides of a separator that a scan finds.
* `Descriptor.parse_insert_blanks`: blanks at either end of a directive or next to one of its
  separators.
-/

namespace Directive

open Text (isBlank trim byteLength byteOffset)

/-! ## Trimmed parts -/

/-- The parts of a directive without the blanks around each of them. -/
def trimmedParts (text : List Char) : List (List Char) :=
  (parts text).map trim

/-- The blanks around a segment say nothing. -/
theorem Filter.ofSegment?_trim (segment : List Char) :
    ofSegment? (trim segment) = ofSegment? segment := by
  rw [ofSegment?_eq, ofSegment?_eq, tokens_trim]

namespace Descriptor

/-- The blanks around parts say nothing. -/
theorem ofParts_map_trim (parts : List (List Char)) : ofParts (parts.map trim) = ofParts parts := by
  cases parts with
  | nil => rfl
  | cons expression segments =>
    have hsegments : (segments.map trim).filterMap Filter.ofSegment?
        = segments.filterMap Filter.ofSegment? := by
      rw [List.filterMap_map]
      exact List.filterMap_congr fun segment _ => Filter.ofSegment?_trim segment
    rw [List.map_cons, ofParts, ofParts, Text.trim_trim, hsegments]

/-- Directives with the same trimmed parts say the same. -/
theorem parse_eq_of_trimmedParts {raw other : String}
    (h : trimmedParts raw.toList = trimmedParts other.toList) : parse raw = parse other := by
  rw [parse_eq_ofParts, parse_eq_ofParts, ← ofParts_map_trim,
    ← ofParts_map_trim (parts other.toList)]
  exact congrArg ofParts h

end Descriptor

/-! ## Blanks at the ends of a text -/

section Blanks

variable {blanks : List Char} (h : ∀ c ∈ blanks, isBlank c = true)

include h

theorem pipe_not_mem_blanks : '|' ∉ blanks :=
  fun hmem => Text.ne_pipe_of_isBlank (h '|' hmem) rfl

/-- Blanks are one part wherever they stand. -/
theorem Context.parts_blanks (context : Context) (before after : Option Char) :
    context.parts before blanks after = [blanks] :=
  parts_of_whole (whole_of_not_mem (pipe_not_mem_blanks h) context before after)

/-- Blanks in front of the first part are trimmed off. -/
theorem map_trim_blanks_glue {parts : List (List Char)} (hne : parts ≠ []) :
    (glue [blanks] parts).map trim = parts.map trim := by
  cases parts with
  | nil => exact absurd rfl hne
  | cons part parts =>
    rw [glue_singleton_cons, List.map_cons, List.map_cons, Text.trim_append_of_blanks h]

/-- Blanks behind the last part are trimmed off. -/
theorem map_trim_glue_blanks {parts : List (List Char)} (hne : parts ≠ []) :
    (glue parts [blanks]).map trim = parts.map trim := by
  induction parts with
  | nil => exact absurd rfl hne
  | cons part parts ih =>
    cases parts with
    | nil => simp [Text.trim_blanks_append h]
    | cons next parts =>
      have hnext : next :: parts ≠ [] := List.cons_ne_nil next parts
      rw [glue_cons hnext, List.map_cons, ih hnext, ← List.map_cons]

/-- Blanks in front of a text do not change its trimmed parts. -/
theorem trimmedParts_blanks_append (text : List Char) :
    trimmedParts (blanks ++ text) = trimmedParts text := by
  have hlast : blanks.getLast?.or none ≠ some '|' := by
    rw [Option.or_none]
    exact fun hpipe => pipe_not_mem_blanks h (List.mem_of_getLast? hpipe)
  have hparts : parts (blanks ++ text) = glue [blanks] (parts text) := by
    rw [parts, Context.parts_append, Context.parts_blanks h, Context.read_blanks h,
      Context.parts_before (Or.inl hlast)]
    rfl
  rw [trimmedParts, hparts, map_trim_blanks_glue h (parts_ne_nil text)]
  rfl

/-- Blanks behind a text do not change its trimmed parts, even if the text leaves a quote open. -/
theorem trimmedParts_append_blanks (text : List Char) :
    trimmedParts (text ++ blanks) = trimmedParts text := by
  have hhead : blanks.head?.or none ≠ some '|' := by
    rw [Option.or_none]
    exact fun hpipe => pipe_not_mem_blanks h (List.mem_of_mem_head? hpipe)
  have hparts : parts (text ++ blanks) = glue (parts text) [blanks] := by
    rw [parts, Context.parts_append, Context.parts_blanks h, Context.parts_after (Or.inl hhead)]
    rfl
  rw [trimmedParts, hparts, map_trim_glue_blanks h (parts_ne_nil text)]
  rfl

/-- Blanks behind a text leave open what the text does. -/
theorem Context.read_append_blanks (context : Context) (text : List Char) :
    context.read (text ++ blanks) = context.read text := by
  rw [read_append, read_blanks h]

end Blanks

/-! ## Texts on the two sides of a separator -/

/-- A pipe between two texts is a separator: it stands alone, and nothing is open in front of it. -/
structure Separates (lead rest : List Char) : Prop where
  /-- The first text leaves nothing open. -/
  closed : Context.start.read lead = .start
  /-- It does not end with a pipe. -/
  before : lead.getLast? ≠ some '|'
  /-- The second text does not start with a pipe. -/
  after : rest.head? ≠ some '|'

/-- Behind parts, an empty part and others are others. -/
theorem glue_nil_cons {parts : List (List Char)} (hne : parts ≠ []) (others : List (List Char)) :
    glue parts ([] :: others) = parts ++ others := by
  induction parts with
  | nil => exact absurd rfl hne
  | cons part parts ih =>
    cases parts with
    | nil => simp
    | cons next parts =>
      have hnext : next :: parts ≠ [] := List.cons_ne_nil next parts
      rw [glue_cons hnext, ih hnext]
      rfl

/-- A separator keeps the parts of the texts on its two sides apart. -/
theorem parts_separator {lead rest : List Char} (h : Separates lead rest) :
    parts (lead ++ '|' :: rest) = parts lead ++ parts rest := by
  have hbefore : lead.getLast?.or none ≠ some '|' := by simpa using h.before
  rw [parts, Context.parts_append, h.closed, Context.parts_pipe hbefore h.after,
    Context.parts_after (Or.inr h.before)]
  exact glue_nil_cons (parts_ne_nil lead) _

/-- So it does with the trimmed parts. -/
theorem trimmedParts_separator {lead rest : List Char} (h : Separates lead rest) :
    trimmedParts (lead ++ '|' :: rest) = trimmedParts lead ++ trimmedParts rest := by
  rw [trimmedParts, parts_separator h, List.map_append]
  rfl

section Blanks

variable {lead rest blanks : List Char} (hblanks : ∀ c ∈ blanks, isBlank c = true)

include hblanks

/-- With blanks in front of it a separator stays one. -/
theorem Separates.append_blanks (h : Separates lead rest) : Separates (lead ++ blanks) rest where
  closed := by rw [Context.read_append_blanks hblanks, h.closed]
  before := by
    rcases List.eq_nil_or_concat blanks with rfl | ⟨others, c, rfl⟩
    · simpa using h.before
    · have hc : isBlank c = true := hblanks c (by simp)
      rw [List.concat_eq_append, ← List.append_assoc, List.getLast?_concat]
      simpa using Text.ne_pipe_of_isBlank hc
  after := h.after

/-- With blanks behind it a separator stays one. -/
theorem Separates.blanks_append (h : Separates lead rest) : Separates lead (blanks ++ rest) where
  closed := h.closed
  before := h.before
  after := by
    cases blanks with
    | nil => exact h.after
    | cons c others =>
      have hc : isBlank c = true := hblanks c List.mem_cons_self
      simpa using Text.ne_pipe_of_isBlank hc

/-- Blanks in front of a separator do not change the trimmed parts. -/
theorem trimmedParts_blanks_before (h : Separates lead rest) :
    trimmedParts (lead ++ blanks ++ '|' :: rest) = trimmedParts (lead ++ '|' :: rest) := by
  rw [trimmedParts_separator (h.append_blanks hblanks), trimmedParts_separator h,
    trimmedParts_append_blanks hblanks]

/-- Blanks behind a separator do not change the trimmed parts. -/
theorem trimmedParts_blanks_after (h : Separates lead rest) :
    trimmedParts (lead ++ '|' :: (blanks ++ rest)) = trimmedParts (lead ++ '|' :: rest) := by
  rw [trimmedParts_separator (h.blanks_append hblanks), trimmedParts_separator h,
    trimmedParts_blanks_append hblanks]

end Blanks

/-! ## The separators that a scan finds -/

/-- On the two sides of a separator that a scan of characters finds stand texts that it separates.
The scan has read `lead`, and `rest` is still to be read. -/
theorem Scan.exists_of_mem_found (scan : Scan) (lead rest : List Char)
    (hcontext : scan.context = Context.start.read lead)
    (hbefore : scan.before = lead.getLast?.bind Symbol.ofChar?)
    (hposition : scan.position = lead.length) {index : Nat}
    (h : index ∈ scan.found (rest.map Symbol.ofChar?)) :
    ∃ first more, lead ++ rest = first ++ '|' :: more ∧ index = first.length
      ∧ Separates first more := by
  induction rest generalizing scan lead with
  | nil => cases h
  | cons c rest ih =>
    have hafter : (rest.map Symbol.ofChar?).head?.join = rest.head?.bind Symbol.ofChar? := by
      cases rest <;> rfl
    have hsep := scan.separates_ofChar? hbefore c rest.head?
    rw [List.map_cons, found, hafter, hsep] at h
    -- a separator further on is found by the scan that has read one more character
    have hmore (hmem : index ∈ (scan.step (Symbol.ofChar? c) (rest.head?.bind Symbol.ofChar?)).found
        (rest.map Symbol.ofChar?)) :
        ∃ first more, lead ++ c :: rest = first ++ '|' :: more ∧ index = first.length
          ∧ Separates first more := by
      rw [List.append_cons]
      refine ih _ (lead ++ [c]) ?_ ?_ ?_ hmem
      · rw [Context.read_append, ← hcontext]
        unfold step
        split <;> rfl
      · rw [List.getLast?_concat]
        unfold step
        split <;> rfl
      · rw [position_step, hposition, List.length_append, List.length_singleton]
    split at h
    case isTrue hhere =>
      obtain ⟨rfl, hlast, hnext, hclosed⟩ := Context.separates_iff.mp hhere
      rcases List.mem_cons.mp h with rfl | h
      · exact ⟨lead, rest, rfl, hposition, hcontext ▸ hclosed, hlast, hnext⟩
      · exact hmore h
    case isFalse => exact hmore h

/-- On the two sides of a separator that is found in the bytes of a text stand texts that it
separates. -/
theorem exists_of_mem_found {text : List Char} {offset : Nat}
    (h : offset ∈ Scan.init.found (symbols text)) :
    ∃ lead rest, text = lead ++ '|' :: rest ∧ offset = byteLength lead ∧ Separates lead rest := by
  rw [Scan.found_symbols] at h
  obtain ⟨index, hindex, rfl⟩ := List.mem_map.mp h
  obtain ⟨lead, rest, rfl, rfl, hsep⟩ := Scan.exists_of_mem_found .init [] text rfl rfl rfl hindex
  exact ⟨lead, rest, rfl, Text.byteOffset_append lead _, hsep⟩

namespace Descriptor

/-- Blanks at the start of a directive, at its end, and directly in front of any separator that the
scan finds or behind it say nothing, also if a quote or a bracket is still open at the end. -/
theorem parse_insert_blanks (raw blanks : String) (h : ∀ c ∈ blanks.toList, isBlank c = true) :
    parse (blanks ++ raw) = parse raw
      ∧ parse (raw ++ blanks) = parse raw
      ∧ ∀ offset ∈ Scan.init.found (symbols raw.toList), ∃ lead rest : String,
        raw = lead ++ "|" ++ rest ∧ offset = byteLength lead.toList
          ∧ parse (lead ++ blanks ++ "|" ++ rest) = parse raw
          ∧ parse (lead ++ "|" ++ blanks ++ rest) = parse raw := by
  refine ⟨parse_eq_of_trimmedParts ?start, parse_eq_of_trimmedParts ?stop, fun offset hoffset => ?_⟩
  case start => rw [String.toList_append, trimmedParts_blanks_append h]
  case stop => rw [String.toList_append, trimmedParts_append_blanks h]
  obtain ⟨lead, rest, hraw, hlead, hsep⟩ := exists_of_mem_found hoffset
  refine ⟨String.ofList lead, String.ofList rest, ?_, by rwa [String.toList_ofList],
    parse_eq_of_trimmedParts ?_, parse_eq_of_trimmedParts ?_⟩
  · apply String.toList_injective
    simpa using hraw
  · have hbefore := trimmedParts_blanks_before h hsep
    rw [hraw, ← hbefore]
    simp
  · have hafter := trimmedParts_blanks_after h hsep
    rw [hraw, ← hafter]
    simp

/-- A directive that leaves a bracket and a quote open. -/
def openDescriptor : Descriptor :=
  ⟨"x||", some [⟨"f(", some [.dynamic "y", .dynamic "|"]⟩]⟩

/-- An em space and a tab, at both ends of this directive and next to its separator. -/
theorem parse_insert_blanks_open :
    (∀ c ∈ "\u2003\t".toList, isBlank c = true)
      ∧ 4 ∈ Scan.init.found (symbols "x|| | f( 'y |".toList)
      ∧ parse ("\u2003\t" ++ "x|| | f( 'y |") = openDescriptor
      ∧ parse ("x|| | f( 'y |" ++ "\u2003\t") = openDescriptor
      ∧ ∃ lead rest : String, "x|| | f( 'y |" = lead ++ "|" ++ rest ∧ 4 = byteLength lead.toList
        ∧ parse (lead ++ "\u2003\t" ++ "|" ++ rest) = openDescriptor
        ∧ parse (lead ++ "|" ++ "\u2003\t" ++ rest) = openDescriptor := by
  have hblanks : ∀ c ∈ "\u2003\t".toList, isBlank c = true :=
    List.forall_iff_forall_mem.mp (by decide)
  have hfound : 4 ∈ Scan.init.found (symbols "x|| | f( 'y |".toList) := by decide +kernel
  have hparse : parse "x|| | f( 'y |" = openDescriptor := by decide +kernel
  obtain ⟨hstart, hstop, hseparators⟩ := parse_insert_blanks "x|| | f( 'y |" "\u2003\t" hblanks
  rw [hparse] at hstart hstop
  obtain ⟨lead, rest, hraw, hlead, hbefore, hafter⟩ := hseparators 4 hfound
  rw [hparse] at hbefore hafter
  exact ⟨hblanks, hfound, hstart, hstop, lead, rest, hraw, hlead, hbefore, hafter⟩

end Descriptor

end Directive
