import Directive.Proofs.Descriptor.Written

/-!
# Directives that are written again

Which descriptors survive being written and read. The conditions under which a well-formed
descriptor is read back from its text are also necessary: pipes outside quotes are counted, and a
text in which the filters are found again has no other separators than the pipes between them.

What a directive says can be lost when it is written again, although its quotes close: a constant
that reads as one and holds a bracket is written between quotes, and a pipe that the bracket kept
from being a separator becomes one. Main facts:

* `Filter.whole_and_closed_of_chain`: filters found again in their chain keep their pipes.
* `Descriptor.parse_render_iff`: a well-formed descriptor with an expression is read back from its
  text exactly when its filters keep their pipes to themselves.
* `Descriptor.hasExpression_parse`: what a directive says has an expression.
-/

namespace Directive

/-! ## Chains -/

namespace Filter

variable {filters : List Filter}

/-- The text of a chain of well-formed filters leaves no quote open. -/
theorem quote_read_chain (hwell : ∀ filter ∈ filters, filter.WellFormed) {context : Context}
    (hquote : context.quote = none) : (context.read (chain filters)).quote = none := by
  induction filters generalizing context with
  | nil => exact hquote
  | cons filter filters ih =>
    obtain ⟨hfilter, hfilters⟩ := List.forall_mem_cons.mp hwell
    cases filters with
    | nil =>
      rw [chain_singleton]
      exact quote_read_chars hfilter hquote
    | cons next filters =>
      -- the pipe between two filters opens no quote
      have hjoint (context : Context) (hquote : context.quote = none) :
          (context.read [' ', '|', ' ']).quote = none := by
        rw [Context.quote_read, hquote]
        rfl
      have htext : chain (filter :: next :: filters)
          = filter.chars ++ ([' ', '|', ' '] ++ chain (next :: filters)) := by
        rw [chain_cons_cons]
        rfl
      rw [htext, Context.read_append, Context.read_append]
      exact ih hfilters (hjoint _ (quote_read_chars hfilter hquote))

/-- No part of such a chain leaves a quote open. -/
theorem quote_read_parts_chain (hwell : ∀ filter ∈ filters, filter.WellFormed) :
    ∀ part ∈ parts (chain filters), (Context.start.read part).quote = none :=
  fun _ hpart => quote_read_of_mem_parts hpart (quote_read_chain hwell rfl)

/-- The pipes of a chain of well-formed filters are those of the filters and those between them. -/
theorem pipes_chain (hwell : ∀ filter ∈ filters, filter.WellFormed) (hne : filters ≠ []) :
    pipes (chain filters) + 1
      = (filters.map fun filter => pipes filter.chars).sum + filters.length := by
  induction filters with
  | nil => exact absurd rfl hne
  | cons filter filters ih =>
    obtain ⟨hfilter, hfilters⟩ := List.forall_mem_cons.mp hwell
    cases filters with
    | nil => simp [chain_singleton]
    | cons next filters =>
      have hrest := ih hfilters (List.cons_ne_nil next filters)
      rw [chain_cons_cons, pipes_append (quote_read_chars hfilter rfl), pipes_cons_of_isBlank rfl,
        pipes_cons_pipe, pipes_cons_of_isBlank rfl, List.map_cons, List.sum_cons, List.length_cons]
      omega

/-- The filters read from segments have no more pipes than the segments. -/
theorem sum_pipes_filterMap_le {segments : List (List Char)}
    (hclosed : ∀ segment ∈ segments, (Context.start.read segment).quote = none) :
    ((segments.filterMap ofSegment?).map fun filter => pipes filter.chars).sum
      ≤ (segments.map pipes).sum := by
  induction segments with
  | nil => exact Nat.le_refl 0
  | cons segment segments ih =>
    obtain ⟨hsegment, hsegments⟩ := List.forall_mem_cons.mp hclosed
    have hrest := ih hsegments
    cases hfilter : ofSegment? segment with
    | none =>
      rw [List.filterMap_cons_none hfilter, List.map_cons, List.sum_cons]
      omega
    | some filter =>
      have hle := pipes_chars_le hfilter hsegment
      rw [List.filterMap_cons_some hfilter, List.map_cons, List.sum_cons, List.map_cons,
        List.sum_cons]
      omega

/-- In a chain that its filters are read back from, each part is one filter, and no pipe of a part
is lost when the filter is written. -/
theorem length_parts_chain (hwell : ∀ filter ∈ filters, filter.WellFormed) (hne : filters ≠ [])
    (h : (parts (chain filters)).filterMap ofSegment? = filters) :
    (parts (chain filters)).length = filters.length
      ∧ ((parts (chain filters)).map pipes).sum
        = (filters.map fun filter => pipes filter.chars).sum := by
  have hle := sum_pipes_filterMap_le (quote_read_parts_chain hwell)
  have hlength := List.length_filterMap_le ofSegment? (parts (chain filters))
  rw [h] at hle hlength
  -- counted over the parts and over the filters, the pipes of the chain are the same
  have hparts := sum_pipes_parts (chain filters)
  have hchain := pipes_chain hwell hne
  -- there are at least as many parts as filters, and they hold at least as many pipes, so that
  -- neither can be more
  omega

/-- If no more segments follow the first one than filters follow the first filter, the first
segment is the first filter. -/
theorem ofSegment?_head {segment : List Char} {segments : List (List Char)} {filter : Filter}
    (h : (segment :: segments).filterMap ofSegment? = filter :: filters)
    (hlength : segments.length ≤ filters.length) :
    ofSegment? segment = some filter ∧ segments.filterMap ofSegment? = filters := by
  cases hof : ofSegment? segment with
  | none =>
    rw [List.filterMap_cons_none hof] at h
    have hshort := List.length_filterMap_le ofSegment? segments
    rw [h, List.length_cons] at hshort
    omega
  | some other =>
    rw [List.filterMap_cons_some hof] at h
    obtain ⟨rfl, hrest⟩ := List.cons.inj h
    exact ⟨rfl, hrest⟩

/-- In a chain that its filters are read back from, the first cut is behind the first filter. -/
theorem cut_of_chain {filter next : Filter}
    (hwell : ∀ other ∈ filter :: next :: filters, other.WellFormed)
    (h : (parts (chain (filter :: next :: filters))).filterMap ofSegment?
      = filter :: next :: filters) :
    IsWhole filter.chars ∧ Context.start.read filter.chars = .start
      ∧ (parts (chain (next :: filters))).filterMap ofSegment? = next :: filters := by
  have hself := hwell filter List.mem_cons_self
  have hclosed := quote_read_parts_chain hwell
  obtain ⟨hlength, hsum⟩ := length_parts_chain hwell (List.cons_ne_nil _ _) h
  rcases Context.start.parts_cases none none (chain (filter :: next :: filters)) with
    ⟨-, hparts⟩ | ⟨first, rest, htext, hwhole, hread, -, -, hparts⟩
  · -- one part is too few
    change parts _ = _ at hparts
    rw [hparts] at hlength
    simp at hlength
  · change parts _ = _ at hparts
    rw [hparts] at h hlength hsum hclosed
    obtain ⟨hfirstClosed, hrestClosed⟩ := List.forall_mem_cons.mp hclosed
    obtain ⟨hfirst, hrest⟩ := ofSegment?_head h (Nat.le_of_succ_le_succ hlength.le)
    have hblank : (Context.start.read (filter.chars ++ [' '])).quote = none := by
      rw [Context.read_append, Context.read_blanks fun _ => Text.isBlank_of_mem_space]
      exact quote_read_chars hself rfl
    -- no pipe is lost, so that the cut is at the pipe behind the first filter
    have hpipes : pipes first = pipes (filter.chars ++ [' ']) := by
      have hle := pipes_chars_le hfirst hfirstClosed
      have hrestLe := sum_pipes_filterMap_le hrestClosed
      have hnone : pipes [' '] = 0 := rfl
      rw [hrest] at hrestLe
      rw [pipes_append (quote_read_chars hself rfl), hnone]
      simp only [List.map_cons, List.sum_cons] at hsum hrestLe
      omega
    -- both cuts are at a pipe with as many pipes before it
    have hcut : first ++ '|' :: rest
        = (filter.chars ++ [' ']) ++ '|' :: ' ' :: chain (next :: filters) := by
      rw [← htext, chain_cons_cons]
      simp
    obtain ⟨rfl, rfl⟩ := eq_of_pipes_eq hcut hfirstClosed hblank hpipes
    rw [Context.read_append, Context.read_blanks fun _ => Text.isBlank_of_mem_space] at hread
    rw [Context.parts_blank, filterMap_glue_blank] at hrest
    have hwholeChars := (Context.whole_append.mp hwhole).1
    exact ⟨(Context.whole_after (Or.inl (by simp))).mp hwholeChars, hread, hrest⟩

/-- Filters that are read back from their chain keep their pipes to themselves. -/
theorem whole_and_closed_of_chain (hwell : ∀ filter ∈ filters, filter.WellFormed)
    (h : (parts (chain filters)).filterMap ofSegment? = filters) :
    (∀ filter ∈ filters, IsWhole filter.chars)
      ∧ ∀ filter ∈ filters.dropLast, Context.start.read filter.chars = .start := by
  induction filters with
  | nil => simp
  | cons filter filters ih =>
    cases filters with
    | nil =>
      -- one filter alone is found again as the only part
      obtain ⟨hlength, -⟩ := length_parts_chain hwell (List.cons_ne_nil _ _) h
      rw [chain_singleton] at hlength
      have hwhole : IsWhole filter.chars := Context.whole_iff_length_parts.mpr hlength
      simpa using hwhole
    | cons next filters =>
      obtain ⟨hwhole, hread, hrest⟩ := cut_of_chain hwell h
      obtain ⟨hwholes, hreads⟩ := ih (List.forall_mem_cons.mp hwell).2 hrest
      refine ⟨List.forall_mem_cons.mpr ⟨hwhole, hwholes⟩, ?_⟩
      rw [List.dropLast_cons_of_ne_nil (List.cons_ne_nil _ _)]
      exact List.forall_mem_cons.mpr ⟨hread, hreads⟩

end Filter

/-! ## Descriptors -/

/-- A whole text is whole without the blanks around it. -/
theorem isWhole_trim {text : List Char} (h : IsWhole text) : IsWhole (Text.trim text) := by
  obtain ⟨lead, trail, htext, hlead, htrail⟩ := Text.exists_eq_trim text
  have hblank {c : Char} (hc : Text.isBlank c = true) : some c ≠ some '|' := by
    simpa using Text.ne_pipe_of_isBlank hc
  have hbefore : lead.getLast?.or none ≠ some '|' := by
    cases hlast : lead.getLast? with
    | none => simp
    | some c => exact hblank (hlead c (List.mem_of_getLast? hlast))
  have hafter : trail.head?.or none ≠ some '|' := by
    cases hhead : trail.head? with
    | none => simp
    | some c => exact hblank (htrail c (List.mem_of_head? hhead))
  rw [IsWhole, htext, Context.whole_append, Context.whole_append, Context.read_blanks hlead] at h
  exact h.2.1.isWhole (Or.inl hbefore) (Or.inl hafter)

/-- The blanks around a text do not change the context. -/
theorem Context.read_trim (context : Context) (text : List Char) :
    context.read (Text.trim text) = context.read text := by
  obtain ⟨lead, trail, htext, hlead, htrail⟩ := Text.exists_eq_trim text
  calc
    context.read (Text.trim text) = context.read (lead ++ (Text.trim text ++ trail)) := by
      rw [read_append, read_append, read_blanks hlead, read_blanks htrail]
    _ = context.read text := by rw [← htext]

/-- What all but the last of the results come from. -/
theorem exists_mem_dropLast_of_filterMap {α β : Type} {f : α → Option β} {items : List α} {b : β}
    (h : b ∈ (items.filterMap f).dropLast) : ∃ a ∈ items.dropLast, f a = some b := by
  rcases List.eq_nil_or_concat items with rfl | ⟨init, last, rfl⟩
  · cases h
  · rw [List.concat_eq_append] at h ⊢
    rw [List.filterMap_append] at h
    rw [List.dropLast_concat]
    refine List.mem_filterMap.mp ?_
    cases hlast : f last with
    | none =>
      rw [List.filterMap_cons_none hlast, List.filterMap_nil, List.append_nil] at h
      exact List.dropLast_subset _ h
    | some c =>
      rwa [List.filterMap_cons_some hlast, List.filterMap_nil, List.dropLast_concat] at h

namespace Descriptor

/-- A well-formed descriptor with an expression is read back from its text exactly when its filters
keep their pipes to themselves. -/
theorem parse_render_iff {descriptor : Descriptor} (hwell : descriptor.WellFormed)
    (hexpression : descriptor.HasExpression) :
    parse descriptor.render = descriptor ↔ descriptor.KeepsPipes := by
  constructor
  · intro h
    cases hpipeline : descriptor.pipeline with
    | nil => exact ⟨by simp [hpipeline], by simp [hpipeline]⟩
    | cons filter filters =>
      have hfilters := hwell.filters
      rw [parse_render_of_pipeline hexpression hpipeline] at h
      rw [hpipeline] at hfilters
      have hread := congrArg pipeline h
      rw [hpipeline] at hread
      replace hread := (getD_unlessEmpty _).symm.trans hread
      obtain ⟨hwhole, hclosed⟩ := Filter.whole_and_closed_of_chain hfilters hread
      rw [← hpipeline] at hwhole hclosed
      refine ⟨fun other hother => isWhole_iff.mp (hwhole other hother), fun other hother => ?_⟩
      rw [contextAfter_eq_read, hclosed other hother]
      rfl
  · exact parse_render_of_keepsPipes hwell hexpression

/-- What a directive says has an expression: what stands before the first separator. -/
theorem hasExpression_parse (raw : String) : (parse raw).HasExpression := by
  rw [parse_eq_ofParts]
  cases hparts : parts raw.toList with
  | nil => exact absurd hparts (Context.parts_ne_nil _ _ _ _)
  | cons expression segments =>
    -- the expression is the first part, without the blanks around it
    have hwhole : IsWhole expression := isWhole_of_mem_parts (hparts ▸ List.mem_cons_self)
    refine ⟨?_, ?_, ?_⟩
    · simp [ofParts]
    · rw [← isWhole_iff, ofParts, String.toList_ofList]
      exact isWhole_trim hwhole
    · intro hsome
      rw [contextAfter_eq_read, ofParts, String.toList_ofList, Context.read_trim]
      have hne : segments ≠ [] := by
        rintro rfl
        cases hsome
      -- a part that another one follows leaves nothing open
      have hmem : expression ∈ (parts raw.toList).dropLast := by
        rw [hparts, List.dropLast_cons_of_ne_nil hne]
        exact List.mem_cons_self
      exact Context.read_of_mem_dropLast_parts hmem

/-- The filters of a directive whose quotes close keep their pipes to themselves, unless a bracket
is hidden when they are written. -/
theorem keepsPipes_parse {raw : String} (hclosed : (contextAfter raw.toList).quote = none)
    (hhides : ∀ filter ∈ (parse raw).pipeline, ∀ argument ∈ filter.arguments,
      argument.hidesBracket = false) : (parse raw).KeepsPipes := by
  rw [contextAfter_eq_read] at hclosed
  rw [parse_eq_ofParts] at hhides ⊢
  cases hparts : parts raw.toList with
  | nil => exact absurd hparts (Context.parts_ne_nil _ _ _ _)
  | cons expression segments =>
    have hpipeline : (ofParts (expression :: segments)).pipeline
        = segments.filterMap Filter.ofSegment? := getD_unlessEmpty _
    have hmem : ∀ segment ∈ segments, segment ∈ parts raw.toList := fun segment h =>
      hparts ▸ List.mem_cons_of_mem expression h
    rw [hparts, hpipeline] at hhides
    refine ⟨?_, ?_⟩
    · rw [hpipeline]
      intro filter hfilter
      obtain ⟨segment, hsegment, hof⟩ := List.mem_filterMap.mp hfilter
      exact isWhole_iff.mp (Filter.isWhole_chars hof
        (quote_read_of_mem_parts (hmem segment hsegment) hclosed)
        (isWhole_of_mem_parts (hmem segment hsegment)) (hhides filter hfilter))
    · rw [hpipeline]
      intro filter hfilter
      obtain ⟨segment, hsegment, hof⟩ := exists_mem_dropLast_of_filterMap hfilter
      have hsegmentMem := List.dropLast_subset _ hsegment
      -- the segment of a filter that is not the last one is not the last part
      have hlast : segment ∈ (parts raw.toList).dropLast := by
        rw [hparts, List.dropLast_cons_of_ne_nil (List.ne_nil_of_mem hsegmentMem)]
        exact List.mem_cons_of_mem expression hsegment
      rw [contextAfter_eq_read, Filter.read_chars hof
        (quote_read_of_mem_parts (hmem segment hsegmentMem) hclosed)
        (hhides filter (List.dropLast_subset _ hfilter)),
        Context.read_of_mem_dropLast_parts hlast]
      rfl

/-- What a directive says is read back from its text exactly when the filters keep their pipes to
themselves, and they do if the quotes of the directive close and no bracket is hidden. -/
theorem parse_render_parse (raw : String) :
    (parse (parse raw).render = parse raw ↔ (parse raw).KeepsPipes)
      ∧ ((contextAfter raw.toList).quote = none →
        (∀ filter ∈ (parse raw).pipeline, ∀ argument ∈ filter.arguments,
          argument.hidesBracket = false) →
        parse (parse raw).render = parse raw) := by
  have hiff := parse_render_iff (wellFormed_parse raw) (hasExpression_parse raw)
  exact ⟨hiff, fun hclosed hhides => hiff.mpr (keepsPipes_parse hclosed hhides)⟩

/-- A directive with pipes in brackets, in a constant and in quotes. -/
def sheltered : String :=
  "a | f (x | 3|4 \"y\" ) | 'g |'"

theorem parse_render_sheltered :
    (contextAfter sheltered.toList).quote = none
      ∧ (∀ filter ∈ (parse sheltered).pipeline, ∀ argument ∈ filter.arguments,
        argument.hidesBracket = false)
      ∧ parse (parse sheltered).render = parse sheltered := by
  have hclosed : (contextAfter sheltered.toList).quote = none := by decide +kernel
  have hhides : ∀ filter ∈ (parse sheltered).pipeline, ∀ argument ∈ filter.arguments,
      argument.hidesBracket = false := by decide +kernel
  exact ⟨hclosed, hhides, (parse_render_parse sheltered).2 hclosed hhides⟩

/-- The bracket of a constant no longer counts once the constant is written between quotes, and the
pipe behind it becomes a separator. -/
theorem parse_render_hidden_bracket :
    (contextAfter "a | f 1( | g".toList).quote = none
      ∧ (parse "a | f 1( | g").render = "a | f '1(' | g"
      ∧ parse (parse "a | f 1( | g").render ≠ parse "a | f 1( | g" := by
  decide +kernel

end Descriptor

end Directive
