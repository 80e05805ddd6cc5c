import Directive.Proofs.Descriptor.RoundTrip

/-!
# Directives one after the other

Two directives with a pipe between them are one directive, if the first one leaves nothing open: it
has the expression of the first one, and the filters of both. What is joined at the seam is the last
part of the first directive, a blank, and nothing else. Main facts:

* `parts_append_joint`: the parts of such a directive are those of the first text, a blank at their
  end, and those of the second text.
* `Filter.filterMap_glue`: blanks at the seam do not change the filters.
* `Descriptor.parse_append_joint`: pipelines compose.
-/

namespace Directive

/-- The filters of parts that blanks are joined to are those of the parts, and what follows the
blanks adds its own. -/
theorem Filter.filterMap_glue {blanks : List Char} (hblanks : ∀ c ∈ blanks, Text.isBlank c = true)
    {parts : List (List Char)} (hne : parts ≠ []) (others : List (List Char)) :
    (glue parts (blanks :: others)).filterMap ofSegment?
      = parts.filterMap ofSegment? ++ others.filterMap ofSegment? := by
  induction parts with
  | nil => exact absurd rfl hne
  | cons part parts ih =>
    cases parts with
    | nil =>
      -- the part at the seam has the same tokens with the blanks behind it
      have hpart : ofSegment? (part ++ blanks) = ofSegment? part := by
        rw [ofSegment?_eq, ofSegment?_eq, tokens_blanks_append hblanks]
      rw [glue_singleton_cons, ← List.singleton_append, List.filterMap_append]
      simp [List.filterMap_cons, hpart]
    | cons next parts =>
      have hnext : next :: parts ≠ [] := List.cons_ne_nil next parts
      rw [glue_cons hnext, ← List.singleton_append, List.filterMap_append, ih hnext,
        ← List.append_assoc, ← List.filterMap_append, List.singleton_append]

namespace Descriptor

/-- What parts say, with blanks joined to the last of them and others behind it: the expression
stays, and the filters of the others are added. -/
theorem ofParts_glue {blanks : List Char} (hblanks : ∀ c ∈ blanks, Text.isBlank c = true)
    {parts : List (List Char)} (hne : parts ≠ []) (others : List (List Char)) :
    ofParts (glue parts (blanks :: others))
      = ⟨(ofParts parts).expression,
        unlessEmpty ((ofParts parts).pipeline ++ others.filterMap Filter.ofSegment?)⟩ := by
  cases parts with
  | nil => exact absurd rfl hne
  | cons expression segments =>
    have hpipeline : (ofParts (expression :: segments)).pipeline
        = segments.filterMap Filter.ofSegment? := getD_unlessEmpty _
    rw [hpipeline]
    cases segments with
    | nil =>
      -- the blanks stand behind the expression
      rw [glue_singleton_cons, ofParts, ofParts, Text.trim_blanks_append hblanks]
      rfl
    | cons segment segments =>
      have hsegments : segment :: segments ≠ [] := List.cons_ne_nil segment segments
      rw [glue_cons hsegments, ofParts, Filter.filterMap_glue hblanks hsegments]
      rfl

/-- The filters of a text behind a pipe are those of its parts. -/
theorem pipeline_parse_pipe (rest : String) :
    (parse ("| " ++ rest)).pipeline = (parts rest.toList).filterMap Filter.ofSegment? := by
  have htext : ("| " ++ rest).toList = '|' :: ' ' :: rest.toList := String.toList_append
  rw [parse_eq_ofParts, htext, parts, Context.parts_pipe_blank (by simp),
    ← Filter.filterMap_glue_blank]
  exact getD_unlessEmpty _

/-- Pipelines compose: with a pipe between them, a directive that leaves nothing open and any other
text have the expression of the first one and the filters of both. The filters of the second one
are those that it has behind a pipe. -/
theorem parse_append_joint (raw rest : String) (hclosed : contextAfter raw.toList = .start) :
    parse (raw ++ " | " ++ rest)
      = ⟨(parse raw).expression,
        unlessEmpty ((parse raw).pipeline ++ (parse ("| " ++ rest)).pipeline)⟩ := by
  rw [contextAfter_eq_read] at hclosed
  have htext : (raw ++ " | " ++ rest).toList = raw.toList ++ ' ' :: '|' :: ' ' :: rest.toList := by
    simp
  have hne : parts raw.toList ≠ [] := Context.parts_ne_nil _ _ _ _
  -- the second text has the same parts behind the joint as it has behind a pipe
  rw [pipeline_parse_pipe, parse_eq_ofParts, parse_eq_ofParts, htext, parts_append_joint hclosed,
    ofParts_glue (fun _ => Text.isBlank_of_mem_space) hne, Filter.filterMap_glue_blank]

/-- The first directive ends in a blank segment and holds a pipe in brackets and a doubled pipe; the
second one opens a quote and a bracket that it does not close. -/
theorem parse_append_joint_open :
    contextAfter "a || b | f (x | y) |".toList = .start
      ∧ parse ("a || b | f (x | y) |" ++ " | " ++ "g 1 | h( 'i | j")
        = ⟨"a || b", some [
          ⟨"f", some [.dynamic "(x", .dynamic "|", .dynamic "y)"]⟩,
          ⟨"g", some [.literal "1"]⟩,
          ⟨"h(", some [.dynamic "i", .dynamic "|", .dynamic "j"]⟩]⟩ := by
  have hclosed : contextAfter "a || b | f (x | y) |".toList = .start := by decide +kernel
  refine ⟨hclosed, (parse_append_joint _ _ hclosed).trans ?_⟩
  decide +kernel

end Descriptor

end Directive
