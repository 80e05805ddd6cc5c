import Directive.Proofs.Scan.Whole
import Directive.Proofs.Token.Arguments

/-!
# Well-formed filters and descriptors

What can be written as a directive and read back from it. A filter is well formed if its name is a
word and its arguments can be written, and nothing holds an empty list. Main facts:

* `Filter.ofSegment?_chars`: the text of a well-formed filter is read back as the filter.
* `Filter.wellFormed_of_ofSegment?`: every filter read from a segment is well formed.
* `Filter.ofSegment?_render_iff`: so exactly the well-formed filters are read back.
* `Descriptor.wellFormed_parse`: so is every descriptor read from a directive.
* `Descriptor.sound_parse`: what that says of the expression, the names and the arguments.
-/

namespace Directive

open Token

/-! ## Lists that are not empty -/

theorem unlessEmpty_ne_some_nil {α : Type} (items : List α) : unlessEmpty items ≠ some [] := by
  cases items <;> simp [unlessEmpty]

theorem getD_unlessEmpty {α : Type} (items : List α) : (unlessEmpty items).getD [] = items := by
  cases items <;> rfl

theorem unlessEmpty_getD {α : Type} {items : Option (List α)} (h : items ≠ some []) :
    unlessEmpty (items.getD []) = items := by
  cases items with
  | none => rfl
  | some items =>
    cases items with
    | nil => exact absurd rfl h
    | cons item items => rfl

/-! ## Filters -/

namespace Filter

/-- A filter that can be written: the name is a word, and so is each argument. -/
structure WellFormed (filter : Filter) : Prop where
  /-- The name is a word. -/
  name : IsWord filter.name.toList
  /-- The list of arguments is not empty. -/
  args_ne_nil : filter.args ≠ some []
  /-- The arguments can be written. -/
  arguments : ∀ argument ∈ filter.arguments, argument.WellFormed

theorem chars_eq (filter : Filter) :
    filter.chars = filter.name.toList ++ spaced (filter.arguments.map Argument.chars) := by
  simp [chars, spaced, List.flatMap_map]

/-- The texts of the arguments of a well-formed filter are words. -/
theorem WellFormed.isWord {filter : Filter} (h : filter.WellFormed) :
    ∀ word ∈ filter.arguments.map Argument.chars, IsWord word := by
  intro word hword
  obtain ⟨argument, hargument, rfl⟩ := List.mem_map.mp hword
  exact Argument.isWord_chars (h.arguments argument hargument)

/-- The tokens of a well-formed filter are its name and the texts of its arguments. -/
theorem tokens_chars_append {filter : Filter} (h : filter.WellFormed) {rest : List Char}
    (hrest : ∀ c ∈ rest.head?, Text.isBlank c = true) :
    tokens (filter.chars ++ rest)
      = filter.name.toList :: (filter.arguments.map Argument.chars ++ tokens rest) := by
  rw [chars_eq, List.append_assoc,
    tokens_append_of_isWord h.name (isBlank_head?_spaced_append _ hrest),
    tokens_spaced_append h.isWord hrest]

/-- The filter that a list of tokens is. -/
def ofTokens? : List Token → Option Filter
  | [] => none
  | name :: args => some ⟨String.ofList name, unlessEmpty (args.map Argument.ofToken)⟩

theorem ofSegment?_eq (segment : List Char) : ofSegment? segment = ofTokens? (tokens segment) := by
  rw [ofSegment?, tokens_trim]
  rfl

/-- The texts of the arguments of a well-formed filter are read back as the arguments. -/
theorem WellFormed.map_ofToken {filter : Filter} (h : filter.WellFormed) :
    (filter.arguments.map Argument.chars).map Argument.ofToken = filter.arguments := by
  -- each argument is read back on its own
  have hread : ∀ argument ∈ filter.arguments,
      (Argument.ofToken ∘ Argument.chars) argument = id argument :=
    fun argument hargument => Argument.ofToken_chars (h.arguments argument hargument)
  rw [List.map_map, List.map_congr_left hread, List.map_id]

/-- The text of a well-formed filter is read back as the filter. -/
theorem ofSegment?_chars {filter : Filter} (h : filter.WellFormed) :
    ofSegment? filter.chars = some filter := by
  have hend : ∀ c ∈ ([] : List Char).head?, Text.isBlank c = true := by simp
  have htokens := tokens_chars_append h hend
  rw [List.append_nil, tokens_nil, List.append_nil] at htokens
  rw [ofSegment?_eq, htokens, ofTokens?, h.map_ofToken, arguments,
    unlessEmpty_getD h.args_ne_nil, String.ofList_toList]

/-- The tokens of a segment that is a filter: its name, and then a token for each argument. -/
theorem tokens_of_ofSegment? {segment : List Char} {filter : Filter}
    (h : ofSegment? segment = some filter) :
    ∃ args, tokens segment = filter.name.toList :: args
      ∧ filter.args = unlessEmpty (args.map Argument.ofToken) := by
  rw [ofSegment?_eq] at h
  cases htokens : tokens segment with
  | nil =>
    rw [htokens] at h
    cases h
  | cons name args =>
    rw [htokens] at h
    obtain rfl := Option.some.inj h
    exact ⟨args, by simp, rfl⟩

/-- Every filter read from a segment is well formed. -/
theorem wellFormed_of_ofSegment? {segment : List Char} {filter : Filter}
    (h : ofSegment? segment = some filter) : filter.WellFormed := by
  obtain ⟨args, htokens, hargs⟩ := tokens_of_ofSegment? h
  have hwords : ∀ token ∈ filter.name.toList :: args, IsWord token := fun token htoken =>
    isWord_of_mem_tokens (htokens ▸ htoken)
  refine ⟨hwords _ List.mem_cons_self, ?_, ?_⟩
  · rw [hargs]
    exact unlessEmpty_ne_some_nil _
  · intro argument hargument
    rw [arguments, hargs, getD_unlessEmpty] at hargument
    obtain ⟨token, htoken, rfl⟩ := List.mem_map.mp hargument
    exact Argument.wellFormed_ofToken (hwords token (List.mem_cons_of_mem _ htoken))

/-- A filter is read back from its text in exactly these cases: the name is a run of plain characters
or a text in quotes of a kind that it does not hold, the list of arguments is not empty, what is
looked up has a run of plain characters for a name which does not read as a constant, and no constant
holds both quotes. -/
theorem ofSegment?_render_iff (filter : Filter) :
    ofSegment? filter.render.toList = some filter
      ↔ (IsBare filter.name.toList ∨ IsQuoted filter.name.toList)
        ∧ filter.args ≠ some []
        ∧ (∀ name, .dynamic name ∈ filter.arguments →
          IsBare name.toList ∧ isConstant name.toList = false)
        ∧ ∀ value, .literal value ∈ filter.arguments →
          ¬∀ quote : Quote, quote.char ∈ value.toList := by
  have hrender : filter.render.toList = filter.chars := String.toList_ofList
  rw [hrender]
  constructor
  · intro hread
    have hwell := wellFormed_of_ofSegment? hread
    refine ⟨hwell.name, hwell.args_ne_nil, fun name hname => hwell.arguments _ hname, ?_⟩
    intro value hvalue
    exact not_forall.mpr (hwell.arguments _ hvalue)
  · rintro ⟨hname, hargs, hdynamic, hliteral⟩
    refine ofSegment?_chars ⟨hname, hargs, fun argument hargument => ?_⟩
    cases argument with
    | dynamic name => exact hdynamic name hargument
    | literal value => exact not_forall.mp (hliteral value hargument)

end Filter

/-! ## Descriptors -/

namespace Descriptor

/-- A descriptor whose filters can be written. -/
structure WellFormed (descriptor : Descriptor) : Prop where
  /-- The list of filters is not empty. -/
  filters_ne_nil : descriptor.filters ≠ some []
  /-- The filters can be written. -/
  filters : ∀ filter ∈ descriptor.pipeline, filter.WellFormed

/-- Every descriptor read from a directive is well formed. -/
theorem wellFormed_parse (raw : String) : (parse raw).WellFormed := by
  rw [parse_eq_ofParts]
  cases parts raw.toList with
  | nil => exact ⟨by simp [ofParts], by simp [ofParts, pipeline]⟩
  | cons expression segments =>
    refine ⟨unlessEmpty_ne_some_nil _, ?_⟩
    intro filter hfilter
    rw [ofParts, pipeline, getD_unlessEmpty] at hfilter
    obtain ⟨segment, -, hsegment⟩ := List.mem_filterMap.mp hfilter
    exact Filter.wellFormed_of_ofSegment? hsegment

/-- What holds of the parts of a descriptor that can be written. -/
structure Sound (descriptor : Descriptor) : Prop where
  /-- No blanks stand around the expression. -/
  trimmed : Text.trim descriptor.expression.toList = descriptor.expression.toList
  /-- A list of filters is not empty. -/
  filters_ne_nil : descriptor.filters ≠ some []
  /-- A name is a run of plain characters, or a text in quotes of a kind that it does not hold. -/
  name : ∀ filter ∈ descriptor.pipeline, IsBare filter.name.toList ∨ IsQuoted filter.name.toList
  /-- A list of arguments is not empty. -/
  args_ne_nil : ∀ filter ∈ descriptor.pipeline, filter.args ≠ some []
  /-- What is looked up has a run of plain characters for a name, which is no constant. -/
  dynamic : ∀ filter ∈ descriptor.pipeline, ∀ name, .dynamic name ∈ filter.arguments →
    IsBare name.toList ∧ isConstant name.toList = false
  /-- A constant does not hold both quotes. -/
  literal : ∀ filter ∈ descriptor.pipeline, ∀ value, .literal value ∈ filter.arguments →
    ¬∀ quote : Quote, quote.char ∈ value.toList
  /-- So the quote that a constant is written between is not in it. -/
  quoteFor : ∀ filter ∈ descriptor.pipeline, ∀ value, .literal value ∈ filter.arguments →
    (Argument.quoteFor value.toList).char ∉ value.toList

/-- The expression of a directive has no blanks around it. -/
theorem trim_expression_parse (raw : String) :
    Text.trim (parse raw).expression.toList = (parse raw).expression.toList := by
  simp [parse, ofPieces]

/-- What a directive says is sound, whatever its text: also if quotes or brackets do not close. -/
theorem sound_parse (raw : String) : (parse raw).Sound := by
  have hwell := wellFormed_parse raw
  have harguments : ∀ filter ∈ (parse raw).pipeline, ∀ argument ∈ filter.arguments,
      argument.WellFormed := fun filter hfilter => (hwell.filters filter hfilter).arguments
  constructor
  case trimmed => exact trim_expression_parse raw
  case filters_ne_nil => exact hwell.filters_ne_nil
  case name => exact fun filter hfilter => (hwell.filters filter hfilter).name
  case args_ne_nil => exact fun filter hfilter => (hwell.filters filter hfilter).args_ne_nil
  case dynamic => exact fun filter hfilter name hname => harguments filter hfilter _ hname
  case literal =>
    -- a constant comes from a run without quotes or from between two quotes of one kind
    intro filter hfilter value hvalue hboth
    obtain ⟨quote, hquote⟩ := harguments filter hfilter _ hvalue
    exact hquote (hboth quote)
  case quoteFor =>
    exact fun filter hfilter value hvalue =>
      Argument.quoteFor_not_mem (harguments filter hfilter _ hvalue)

end Descriptor

end Directive
