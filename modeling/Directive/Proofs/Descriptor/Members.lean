import Directive.Descriptor.Json
import Directive.Proofs.Descriptor.Json
import Directive.Proofs.Json.Rearranged
import Mathlib.Logic.Relation

/-!
# Descriptors depend on their known members

A descriptor, a filter and an argument are objects with two known members, and the second member of
the first two is a list that may be missing. So a descriptor that is read from a text is also read
when the members of these objects stand in another order, members of other names are added with any
values, and a missing list is written as `null`. Main facts:

* `Argument.fields`, `Filter.fields`, `Descriptor.fields`: the known members and how they are read.
* `Descriptor.ofJson_rearranged`: what is read of a text and of the text after such changes.
-/

namespace Directive

open Json

namespace Argument

/-- The known members of an argument. -/
def fields : TwoFields record String Bool where
  first := "value"
  second := "dynamic"
  readFirst := Reader.text
  readSecond := Reader.bool
  draft := Draft.mk
  ofValues? value isDynamic := isDynamic.map (ofValue value)
  names_ne := by decide
  exact_first := exact_text
  exact_second := exact_bool
  exists_draft state := ⟨state.value, state.isDynamic, rfl⟩
  start_eq := rfl
  member_first _ _ := rfl
  member_second _ _ := rfl
  member_other _ _ hfirst hsecond := by simp [record, hfirst, hsecond]
  reads_ofList_iff := by
    intro text value left
    simp only [record, Reads.bind_iff, Record.reads_place_iff, Reads.pure_iff]
    constructor
    · rintro ⟨a, middle, hfirst, b, _, hsecond, rfl, rfl⟩
      exact ⟨a, some b, middle, hfirst, hsecond, rfl⟩
    · rintro ⟨a, b, middle, hfirst, hsecond, hvalue⟩
      obtain ⟨b, rfl, rfl⟩ := Option.map_eq_some_iff.mp hvalue
      exact ⟨a, middle, hfirst, b, left, hsecond, rfl, rfl⟩

/-- A change in the text of an argument: its members are reordered, or one of another name is
added. -/
def Rearranged : List Char → List Char → Prop :=
  Reordered ["value", "dynamic"]

end Argument

namespace Filter

/-- The known members of a filter. -/
def fields : ListFields record String Argument where
  first := "name"
  second := "args"
  readFirst := Reader.text
  readSecond := readArguments
  readItem := Argument.record.read
  draft := Draft.mk
  ofValues? name args := some ⟨name, args.join⟩
  names_ne := by decide
  exact_first := exact_text
  exact_second := Argument.fields.exact.list.optional
  exact_item := Argument.fields.exact
  exists_draft state := ⟨state.name, state.args, rfl⟩
  start_eq := rfl
  member_first _ _ := rfl
  member_second _ _ := rfl
  member_other _ _ hfirst hsecond := by simp [record, hfirst, hsecond]
  reads_ofList_iff := Record.reads_places_iff
  readSecond_eq := rfl
  finish_none _ := rfl
  ofValues_none _ := rfl

/-- A change in the text of a filter: its members are reordered, one of another name is added, its
missing arguments are written as `null`, or one of its arguments changes. -/
def Rearranged : List Char → List Char → Prop :=
  Json.Rearranged "name" "args" Argument.Rearranged

end Filter

namespace Descriptor

/-- The known members of a descriptor. -/
def fields : ListFields record String Filter where
  first := "expression"
  second := "filters"
  readFirst := Reader.text
  readSecond := readFilters
  readItem := Filter.record.read
  draft := Draft.mk
  ofValues? expression filters := some ⟨expression, filters.join⟩
  names_ne := by decide
  exact_first := exact_text
  exact_second := Filter.fields.exact.list.optional
  exact_item := Filter.fields.exact
  exists_draft state := ⟨state.expression, state.filters, rfl⟩
  start_eq := rfl
  member_first _ _ := rfl
  member_second _ _ := rfl
  member_other _ _ hfirst hsecond := by simp [record, hfirst, hsecond]
  reads_ofList_iff := Record.reads_places_iff
  readSecond_eq := rfl
  finish_none _ := rfl
  ofValues_none _ := rfl

/-- A change in the text of a descriptor: its members are reordered, one of another name is added,
its missing filters are written as `null`, or one of its filters changes. -/
def Rearranged : List Char → List Char → Prop :=
  Json.Rearranged "expression" "filters" Filter.Rearranged

end Descriptor

/-! ## What is read after a change -/

variable {text text' : List Char}

theorem Argument.means_of_rearranged {argument : Argument} (h : Argument.Rearranged text text')
    (hmeans : Means record.read text argument) : Means record.read text' argument :=
  Reordered.means fields h hmeans

theorem Filter.means_of_rearranged {filter : Filter} (h : Filter.Rearranged text text')
    (hmeans : Means record.read text filter) : Means record.read text' filter :=
  Json.Rearranged.means fields (fun _ _ _ => Argument.means_of_rearranged)
    (fun _ _ h => Reordered.isValue h) h hmeans

theorem Filter.isValue_of_rearranged (h : Filter.Rearranged text text') : IsValue text' :=
  Json.Rearranged.isValue (fun _ _ h => Reordered.isValue h) h

namespace Descriptor

theorem means_of_rearranged {descriptor : Descriptor} (h : Rearranged text text')
    (hmeans : Means record.read text descriptor) : Means record.read text' descriptor :=
  Json.Rearranged.means fields (fun _ _ _ => Filter.means_of_rearranged)
    (fun _ _ => Filter.isValue_of_rearranged) h hmeans

/-- A descriptor is read from a text if its value is read as the descriptor. -/
theorem ofJson_text_iff {item : Item} (hitem : item.Formed) {descriptor : Descriptor} :
    ofJson (String.ofList item.text) = .ok descriptor
      ↔ Means record.read item.value descriptor := by
  have hrun : ofJson (String.ofList item.text) = .ok descriptor
      ↔ record.read.run (String.ofList item.text) = .ok descriptor := by
    unfold ofJson
    cases record.read.run (String.ofList item.text) <;> simp [Except.mapError]
  have htrail : Delimits item.trail := by
    simpa using delimits_append hitem.1.trail delimits_nil
  rw [hrun, run_eq_ok_iff, String.toList_ofList]
  constructor
  · rintro ⟨rest, hread, -⟩
    exact (fields.exact hitem.2 hitem.1.lead htrail hread).2
  · intro hmeans
    exact ⟨item.trail, hmeans hitem.1.lead htrail, hitem.1.trail⟩

/-- A descriptor depends on its known members: if it is read from a text, it is also read after any
number of changes that reorder the members of the descriptor, of a filter or of an argument, add
members of other names with any values to them, or write missing filters or arguments as `null`. -/
theorem ofJson_rearranged {item : Item} (hitem : item.Formed) {value : List Char}
    (h : Relation.ReflTransGen Rearranged item.value value) {descriptor : Descriptor}
    (hread : ofJson (String.ofList item.text) = .ok descriptor) :
    ofJson (String.ofList { item with value := value }.text) = .ok descriptor := by
  have hmeans : IsValue value ∧ Means record.read value descriptor := by
    -- one change after the other, each of which leaves a value that is read as before
    induction h with
    | refl => exact ⟨hitem.2, (ofJson_text_iff hitem).mp hread⟩
    | tail _ hchange ih =>
      exact ⟨Json.Rearranged.isValue (fun _ _ => Filter.isValue_of_rearranged) hchange,
        means_of_rearranged hchange ih.2⟩
  exact (ofJson_text_iff (hitem.replace hmeans.1)).mpr hmeans.2

/-! ### A descriptor with other members

The text `{"expression":"x","filters":[{"name":"f"}]}` turns into
`{"filters":[{"name":"f","args":null}],"}":[{"\ud800":-0}],"expression":"x"}`.
-/

/-- A string that needs no escapes. -/
def plain (text : List Char) : List Char :=
  '\x22' :: (text ++ ['\x22'])

/-- A member without space around its parts. -/
def tight (key : String) (value : List Char) : Member :=
  ⟨⟨[], value, []⟩, [], key.toList, []⟩

/-- A list of one object with these members. -/
def listOf (members : List Member) : List Char :=
  listText [] [⟨[], objectText [] members, []⟩]

/-- The members of a descriptor with one filter, which has a name. -/
def sparse : List Member :=
  [tight "expression" (plain ['x']), tight "filters" (listOf [tight "name" (plain ['f'])])]

/-- A member of another name: its key closes a bracket, and in its value stands half a character. -/
def foreign : Member :=
  tight "\x7d" (listOf [tight "\\ud800" ['-', '0']])

/-- The members of that filter with `null` for its arguments. -/
def filled : List Member :=
  [tight "name" (plain ['f']), tight "args" ['n', 'u', 'l', 'l']]

/-- The members of that descriptor in another order, with the other member among them and the filter
filled. -/
def crowded : List Member :=
  [tight "filters" (listOf filled), foreign, tight "expression" (plain ['x'])]

theorem isValue_plain {text : List Char} (h : text.Forall IsBare) : IsValue (plain text) :=
  .string (spells_of_bare h).isBody

theorem formed_tight {key : String} {value : List Char} (hkey : IsBody key.toList)
    (hvalue : IsValue value) : (tight key value).Formed :=
  ⟨⟨⟨isSpace_nil, isSpace_nil⟩, isSpace_nil, hkey, isSpace_nil⟩, hvalue⟩

theorem formed_object {members : List Member} (h : ∀ member ∈ members, member.Formed) :
    Item.Formed ⟨[], objectText [] members, []⟩ :=
  ⟨⟨isSpace_nil, isSpace_nil⟩, isValue_objectText isSpace_nil h⟩

theorem isValue_listOf {members : List Member} (h : ∀ member ∈ members, member.Formed) :
    IsValue (listOf members) :=
  isValue_listText isSpace_nil (List.forall_mem_singleton.mpr (formed_object h))

theorem formed_expression : (tight "expression" (plain ['x'])).Formed :=
  formed_tight (spells_of_bare (by decide)).isBody (isValue_plain (by decide))

theorem formed_name : (tight "name" (plain ['f'])).Formed :=
  formed_tight (spells_of_bare (by decide)).isBody (isValue_plain (by decide))

theorem formed_null : (tight "args" ['n', 'u', 'l', 'l']).Formed :=
  formed_tight (spells_of_bare (by decide)).isBody .nullWord

theorem formed_filters {members : List Member} (h : ∀ member ∈ members, member.Formed) :
    (tight "filters" (listOf members)).Formed :=
  formed_tight (spells_of_bare (by decide)).isBody (isValue_listOf h)

theorem formed_foreign : foreign.Formed := by
  have hnumber : IsValue ['-', '0'] :=
    .number (@IsNumber.mk ['-'] ['0'] [] [] (.inr rfl) (.inl rfl) (.inl rfl) (.inl rfl))
  have hhalf : (tight "\\ud800" ['-', '0']).Formed :=
    formed_tight (.unit (.mk rfl rfl rfl rfl) .nil) hnumber
  exact formed_tight (spells_of_bare (by decide)).isBody
    (isValue_listOf (List.forall_mem_singleton.mpr hhalf))

theorem formed_sparse : ∀ member ∈ sparse, member.Formed :=
  forall_mem_pair formed_expression (formed_filters (List.forall_mem_singleton.mpr formed_name))

theorem ofJson_sparse :
    ofJson (String.ofList (Item.text ⟨[], objectText [] sparse, []⟩))
      = .ok ⟨"x", some [⟨"f", none⟩]⟩ := by
  have htext : String.ofList (Item.text ⟨[], objectText [] sparse, []⟩)
      = (toJson ⟨"x", some [⟨"f", none⟩]⟩).render .compact := by
    decide
  rw [htext]
  exact ofJson_render _ Layout.spaced_compact

theorem rearranged_filled :
    Filter.Rearranged (objectText [] [tight "name" (plain ['f'])]) (objectText [] filled) := by
  refine .null isSpace_nil (List.forall_mem_singleton.mpr formed_name) formed_null ?_
    (spells_of_bare (by decide)) rfl
  refine List.forall_mem_singleton.mpr fun hspells => ?_
  have heq := hspells.unique (spells_of_bare (by decide))
  exact absurd heq (by decide)

theorem rearranged_sparse :
    Rearranged (objectText [] sparse)
      (objectText [] [tight "expression" (plain ['x']), tight "filters" (listOf filled)]) := by
  have hfilter : ∀ other ∈ [] ++ Item.mk [] (objectText [] [tight "name" (plain ['f'])]) [] :: [],
      other.Formed :=
    List.forall_mem_singleton.mpr (formed_object (List.forall_mem_singleton.mpr formed_name))
  have hchanged : ItemChanged Filter.Rearranged (listOf [tight "name" (plain ['f'])])
      (listOf filled) :=
    .mk isSpace_nil hfilter rearranged_filled
  have hmembers : ∀ other ∈ [tight "expression" (plain ['x'])]
      ++ tight "filters" (listOf [tight "name" (plain ['f'])]) :: [], other.Formed :=
    formed_sparse
  exact .item isSpace_nil hmembers (spells_of_bare (by decide)) hchanged

theorem rearranged_crowded :
    Relation.ReflTransGen Rearranged (objectText [] sparse) (objectText [] crowded) := by
  have hfilled : ∀ member ∈ [tight "expression" (plain ['x']), tight "filters" (listOf filled)],
      member.Formed :=
    forall_mem_pair formed_expression (formed_filters (forall_mem_pair formed_name formed_null))
  have hforeign := List.forall_mem_cons.mpr ⟨formed_foreign, hfilled⟩
  have hperm : ([foreign, tight "expression" (plain ['x'])]
      ++ [tight "filters" (listOf filled)]).Perm
      ([tight "filters" (listOf filled)] ++ [foreign, tight "expression" (plain ['x'])]) :=
    List.perm_append_comm
  have hcrowded : ∀ member ∈ crowded, member.Formed :=
    fun member hmember => hforeign member (hperm.mem_iff.mpr hmember)
  have hinsert : Reordered ["expression", "filters"] _ _ :=
    .insert isSpace_nil hfilled formed_foreign (spells_of_bare (by decide)) (by decide)
  have hpermute : Reordered ["expression", "filters"] _ _ :=
    .permute isSpace_nil isSpace_nil hforeign hcrowded (hperm.map Member.entry)
  exact ((Relation.ReflTransGen.single rearranged_sparse).tail (.members hinsert)).tail
    (.members hpermute)

theorem ofJson_rearranged_crowded :
    Item.Formed ⟨[], objectText [] sparse, []⟩
      ∧ Relation.ReflTransGen Rearranged (objectText [] sparse) (objectText [] crowded)
      ∧ ofJson (String.ofList (Item.text ⟨[], objectText [] sparse, []⟩))
        = .ok ⟨"x", some [⟨"f", none⟩]⟩
      ∧ ofJson (String.ofList (Item.text ⟨[], objectText [] crowded, []⟩))
        = .ok ⟨"x", some [⟨"f", none⟩]⟩ :=
  ⟨formed_object formed_sparse, rearranged_crowded, ofJson_sparse,
    ofJson_rearranged (formed_object formed_sparse) rearranged_crowded ofJson_sparse⟩

end Descriptor

end Directive
