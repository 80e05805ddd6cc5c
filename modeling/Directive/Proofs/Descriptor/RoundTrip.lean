import Directive.Proofs.Descriptor.WellFormed
import Directive.Proofs.Scan.Words

/-!
# Descriptors are read back from their texts

A descriptor that is well formed, and whose expression and filters keep their pipes to themselves,
is what its own text says. Main facts:

* `filterMap_parts_chain`: filters that are whole and leave nothing open, with pipes between them,
  are read back one by one.
* `parse_render_of_pipeline`: the first part of the text of a descriptor is its expression.
* `parse_render_eq`: a descriptor that can be written is read back from its text.
-/

namespace Directive

/-- The context that a scan of a text ends in. -/
def contextAfter (text : List Char) : Context :=
  (Scan.init.run (symbols text)).context

theorem contextAfter_eq_read (text : List Char) : contextAfter text = Context.start.read text :=
  Scan.context_run _ _

/-! ## Chains of filters -/

namespace Filter

/-- The texts of filters with pipes between them. -/
def chain : List Filter → List Char
  | [] => []
  | filter :: filters =>
    filter.chars ++ filters.flatMap fun other => ' ' :: '|' :: ' ' :: other.chars

theorem chain_singleton (filter : Filter) : chain [filter] = filter.chars := by
  simp [chain]

theorem chain_cons_cons (filter next : Filter) (filters : List Filter) :
    chain (filter :: next :: filters)
      = filter.chars ++ ' ' :: '|' :: ' ' :: chain (next :: filters) := by
  simp [chain]

/-- The text of a well-formed filter leaves no quote open. -/
theorem quote_read_chars {filter : Filter} (h : filter.WellFormed) {context : Context}
    (hquote : context.quote = none) : (context.read filter.chars).quote = none := by
  rw [chars_eq, Context.read_append]
  exact Context.quote_read_spaced (Context.quote_read_word hquote h.name) h.isWord

/-- A segment without characters is no filter. -/
@[simp] theorem ofSegment?_nil : ofSegment? [] = none := by
  rw [ofSegment?_eq, tokens_nil]
  rfl

/-- A blank in front of a segment makes no difference. -/
theorem ofSegment?_cons_of_isBlank {c : Char} (h : Text.isBlank c = true) (segment : List Char) :
    ofSegment? (c :: segment) = ofSegment? segment := by
  rw [ofSegment?_eq, ofSegment?_eq, tokens_cons_of_isBlank h]

/-- A blank at the end of a segment makes no difference. -/
theorem ofSegment?_concat_of_isBlank {c : Char} (h : Text.isBlank c = true)
    (segment : List Char) : ofSegment? (segment ++ [c]) = ofSegment? segment := by
  rw [ofSegment?_eq, ofSegment?_eq, tokens_concat_of_isBlank h]

/-- A blank in front of the first part makes no difference to the filters. -/
theorem filterMap_glue_blank (parts : List (List Char)) :
    (glue [[' ']] parts).filterMap ofSegment? = parts.filterMap ofSegment? := by
  cases parts with
  | nil => simp [ofSegment?_cons_of_isBlank (c := ' ') rfl]
  | cons part parts =>
    rw [glue_singleton_cons, List.singleton_append, List.filterMap_cons, List.filterMap_cons,
      ofSegment?_cons_of_isBlank rfl]

/-- Whole filters that leave nothing open, with pipes between them, are read back one by one. Only
the last one may leave brackets open. -/
theorem filterMap_parts_chain {filters : List Filter}
    (hwell : ∀ filter ∈ filters, filter.WellFormed)
    (hwhole : ∀ filter ∈ filters, IsWhole filter.chars)
    (hread : ∀ filter ∈ filters.dropLast, Context.start.read filter.chars = .start) :
    (parts (chain filters)).filterMap ofSegment? = filters := by
  induction filters with
  | nil => simp [chain, parts]
  | cons filter filters ih =>
    have hself : ofSegment? filter.chars = some filter :=
      ofSegment?_chars (hwell filter List.mem_cons_self)
    cases filters with
    | nil =>
      have hparts : parts filter.chars = [filter.chars] :=
        Context.parts_of_whole (hwhole filter List.mem_cons_self)
      rw [chain_singleton, hparts, List.filterMap_cons, hself]
      rfl
    | cons next filters =>
      -- the filter is the first part, and the rest of the chain starts anew behind the pipe
      have hstart : Context.start.read filter.chars = .start :=
        hread filter (by simp)
      have hrest := ih (fun other h => hwell other (List.mem_cons_of_mem filter h))
        (fun other h => hwhole other (List.mem_cons_of_mem filter h))
        (fun other h => hread other (by simpa using Or.inr h))
      rw [chain_cons_cons, parts_joint (hwhole filter List.mem_cons_self) hstart,
        List.filterMap_cons, ofSegment?_concat_of_isBlank rfl, hself, filterMap_glue_blank, hrest]

end Filter

/-! ## Descriptors -/

namespace Descriptor

/-- The expression of a descriptor is what stands before the first separator of a text. -/
structure HasExpression (descriptor : Descriptor) : Prop where
  /-- No blanks stand around the expression. -/
  trimmed : Text.trim descriptor.expression.toList = descriptor.expression.toList
  /-- A scan of the expression alone meets no separator. -/
  whole : (Pieces.ofText descriptor.expression.toList).segments = []
  /-- In front of filters the expression leaves no quote and no bracket open. -/
  closed : descriptor.filters.isSome → contextAfter descriptor.expression.toList = .start

/-- The filters of a descriptor keep their pipes to themselves. -/
structure KeepsPipes (descriptor : Descriptor) : Prop where
  /-- A scan of the text of a filter alone meets no separator. -/
  whole : ∀ filter ∈ descriptor.pipeline, (Pieces.ofText filter.chars).segments = []
  /-- The text of a filter that another one follows leaves no bracket open. -/
  closed : ∀ filter ∈ descriptor.pipeline.dropLast, (contextAfter filter.chars).nesting = .flat

theorem chars_of_none {descriptor : Descriptor} (h : descriptor.filters = none) :
    descriptor.chars = descriptor.expression.toList := by
  have hpipeline : descriptor.pipeline = [] := by
    rw [pipeline, h]
    rfl
  unfold chars
  rw [hpipeline]
  cases hexpression : descriptor.expression.toList <;> simp

theorem chars_of_pipeline {descriptor : Descriptor} {filter : Filter} {filters : List Filter}
    (h : descriptor.pipeline = filter :: filters) :
    descriptor.chars
      = if descriptor.expression.toList = [] then '|' :: ' ' :: Filter.chain (filter :: filters)
        else descriptor.expression.toList ++ ' ' :: '|' :: ' '
          :: Filter.chain (filter :: filters) := by
  unfold chars
  rw [h]
  cases hexpression : descriptor.expression.toList <;> simp [Filter.chain]

/-- The first part of the text of a descriptor is its expression, and the filters are read from what
follows the first pipe. -/
theorem parse_render_of_pipeline {descriptor : Descriptor} (hexpression : descriptor.HasExpression)
    {filter : Filter} {filters : List Filter} (h : descriptor.pipeline = filter :: filters) :
    parse descriptor.render
      = ⟨descriptor.expression,
        unlessEmpty ((parts (Filter.chain (filter :: filters))).filterMap Filter.ofSegment?)⟩ := by
  have hsome : descriptor.filters.isSome := by
    cases hfilters : descriptor.filters with
    | none => simp [pipeline, hfilters] at h
    | some filters => rfl
  have hstart := hexpression.closed hsome
  rw [contextAfter_eq_read] at hstart
  have htrim : String.ofList (Text.trim descriptor.expression.toList) = descriptor.expression := by
    rw [hexpression.trimmed, String.ofList_toList]
  rw [parse_eq_ofParts, render, String.toList_ofList, chars_of_pipeline h]
  split
  case isTrue hempty =>
    -- the pipe is the first character of the text
    rw [parts, Context.parts_pipe_blank (by simp), ofParts, Filter.filterMap_glue_blank, ← htrim,
      hempty]
  case isFalse =>
    rw [parts_joint (isWhole_iff.mpr hexpression.whole) hstart, ofParts,
      Filter.filterMap_glue_blank,
      Text.trim_blanks_append (fun _ => Text.isBlank_of_mem_space), htrim]

/-- A descriptor without filters is read back from its text. -/
theorem parse_render_of_none {descriptor : Descriptor} (hexpression : descriptor.HasExpression)
    (h : descriptor.filters = none) : parse descriptor.render = descriptor := by
  have hparts : parts descriptor.expression.toList = [descriptor.expression.toList] :=
    Context.parts_of_whole (isWhole_iff.mpr hexpression.whole)
  rw [parse_eq_ofParts, render, String.toList_ofList, chars_of_none h, hparts, ofParts,
    hexpression.trimmed, String.ofList_toList]
  obtain ⟨expression, filters⟩ := descriptor
  obtain rfl : filters = none := h
  rfl

/-- A well-formed descriptor is read back from its text if its expression is what stands before the
first separator and its filters keep their pipes to themselves. -/
theorem parse_render_of_keepsPipes {descriptor : Descriptor} (hwell : descriptor.WellFormed)
    (hexpression : descriptor.HasExpression) (hpipes : descriptor.KeepsPipes) :
    parse descriptor.render = descriptor := by
  cases hpipeline : descriptor.pipeline with
  | nil =>
    have hnone : descriptor.filters = none := by
      have hfilters := unlessEmpty_getD hwell.filters_ne_nil
      rw [show descriptor.filters.getD [] = [] from hpipeline] at hfilters
      exact hfilters.symm
    exact parse_render_of_none hexpression hnone
  | cons filter filters =>
    have hwhole : ∀ other ∈ filter :: filters, IsWhole other.chars := fun other hother =>
      isWhole_iff.mpr (hpipes.whole other (hpipeline ▸ hother))
    have hfilters : ∀ other ∈ filter :: filters, other.WellFormed := fun other hother =>
      hwell.filters other (hpipeline ▸ hother)
    -- a well-formed filter leaves no quote open, so that only its brackets matter
    have hread : ∀ other ∈ (filter :: filters).dropLast,
        Context.start.read other.chars = .start := by
      intro other hother
      have hquote : (Context.start.read other.chars).quote = none :=
        Filter.quote_read_chars (hfilters other ((List.dropLast_sublist _).subset hother)) rfl
      have hflat := hpipes.closed other (hpipeline ▸ hother)
      rw [contextAfter_eq_read] at hflat
      exact Context.eq_start_iff.mpr ⟨hquote, hflat⟩
    rw [parse_render_of_pipeline hexpression hpipeline,
      Filter.filterMap_parts_chain hfilters hwhole hread, ← hpipeline, pipeline,
      unlessEmpty_getD hwell.filters_ne_nil]

/-- A descriptor that can be written as a directive: it is well formed, its expression is what
stands before the first separator, and its filters keep their pipes to themselves. -/
structure Writable (descriptor : Descriptor) : Prop where
  /-- The filters are words and arguments that can be written. -/
  wellFormed : descriptor.WellFormed
  /-- The expression is trimmed, whole and closed. -/
  hasExpression : descriptor.HasExpression
  /-- The filters are whole, and closed if another one follows. -/
  keepsPipes : descriptor.KeepsPipes

/-- A descriptor that can be written is read back from its text, however it was built. -/
theorem parse_render_eq (descriptor : Descriptor) (h : descriptor.Writable) :
    parse descriptor.render = descriptor :=
  parse_render_of_keepsPipes h.wellFormed h.hasExpression h.keepsPipes

/-- A descriptor whose filters hold brackets, quotes and pipes of their own. -/
def nested : Descriptor where
  expression := "a || b"
  filters := some
    [⟨"f(", some [.literal "it's |", .dynamic "x|y)", .literal "1["]⟩, ⟨"'g |'", none⟩]

theorem nested_writable : nested.Writable where
  wellFormed :=
    { filters_ne_nil := by decide
      filters := by
        intro filter hfilter
        rcases List.mem_pair.mp hfilter with rfl | rfl
        · refine ⟨Or.inl ⟨by decide, List.all_eq_true.mp (by decide +kernel)⟩, by decide, ?_⟩
          intro argument hargument
          simp only [Filter.arguments, Option.getD_some, List.mem_cons, List.not_mem_nil,
            or_false] at hargument
          rcases hargument with rfl | rfl | rfl
          · exact ⟨.double, by decide⟩
          · exact ⟨⟨by decide, List.all_eq_true.mp (by decide +kernel)⟩, by decide +kernel⟩
          · exact ⟨.single, by decide⟩
        · exact ⟨Or.inr ⟨.single, "g |".toList, by decide, by decide⟩, by decide,
            by simp [Filter.arguments]⟩ }
  hasExpression := ⟨by decide +kernel, by decide +kernel, by decide +kernel⟩
  keepsPipes := ⟨by decide +kernel, by decide +kernel⟩

theorem parse_render_nested : nested.Writable ∧ parse nested.render = nested :=
  ⟨nested_writable, parse_render_eq nested nested_writable⟩

end Descriptor

end Directive
