import Directive.Descriptor.Json
import Directive.Proofs.Json.Written

/-!
# Descriptors are read back from JSON

The members that are written for an argument, a filter or a descriptor lead its record to a draft
that holds all of it. A missing list has no member, and its place in the draft stays empty; an empty
list is a member of its own. Main facts:

* `Argument.readsBack`, `Filter.readsBack`, `Descriptor.readsBack`: each is read back wherever it
  is written.
* `Descriptor.ofJson_render`: a descriptor is read back from its text in every spaced layout.
* `Descriptor.ofJson_toJson`: so it is from the two layouts that are in use.
-/

namespace Directive

open Json (Layout Reader ReadsBack Record Writer)

/-! ## Members -/

section Members

variable {α β σ : Type}

/-- A member that may stand once, and has not been read, is read back into its place. -/
theorem Json.Record.Leads.once {record : Record σ α} {state final : σ} {key : String}
    {writer : Writer} {reader : Reader β} {value : β} {store : β → σ}
    {members : List (String × Writer)}
    (hmember : record.member state key = Record.once key none reader store)
    (hvalue : ReadsBack reader writer value) (hmore : record.Leads (store value) members final) :
    record.Leads state ((key, writer) :: members) final :=
  .cons hmember (hvalue.map store) hmore

/-- The member for a list that may be missing leads to a state that has the list in its place, or
nothing if there is no list. -/
theorem Json.Record.Leads.optionalList {record : Record σ α} {state : σ} {key : String}
    {item : Reader β} {write : β → Writer} {items : Option (List β)}
    {store : Option (List β) → σ}
    (hmember : record.member state key
      = Record.once key none (Reader.optional (Reader.list item)) store)
    (hitems : ∀ list ∈ items, ∀ value ∈ list, ReadsBack item (write value) value) :
    record.Leads state (Writer.optionalList key items write)
      (items.elim state fun list => store (some list)) := by
  cases items with
  | none => exact .nil state
  | some list =>
    -- an empty list is a member like any other, so that it is not taken for a missing one
    have hlist := ReadsBack.list (hitems list rfl)
    exact .once hmember hlist.optional (.nil _)

end Members

/-! ## Descriptors and their parts -/

/-- An argument is read back wherever it is written. -/
theorem Argument.readsBack (argument : Argument) :
    ReadsBack record.read argument.toJson argument := by
  have hleads : record.Leads record.start
      [("value", .text argument.value), ("dynamic", .bool argument.isDynamic)]
      ⟨some argument.value, some argument.isDynamic⟩ :=
    .once rfl (Json.readsBack_text _) (.once rfl (Json.readsBack_bool _) (.nil _))
  exact .object hleads (congrArg Except.ok argument.ofValue_value_isDynamic)

/-- A filter is read back wherever it is written. -/
theorem Filter.readsBack (filter : Filter) : ReadsBack record.read filter.toJson filter := by
  obtain ⟨name, args⟩ := filter
  have hargs : ∀ list ∈ args, ∀ argument ∈ list,
      ReadsBack Argument.record.read argument.toJson argument :=
    fun _ _ argument _ => argument.readsBack
  refine .object (.once rfl (Json.readsBack_text _) (.optionalList rfl hargs)) ?_
  cases args <;> rfl

/-- A descriptor is read back wherever it is written. -/
theorem Descriptor.readsBack (descriptor : Descriptor) :
    ReadsBack record.read descriptor.toJson descriptor := by
  obtain ⟨expression, filters⟩ := descriptor
  have hfilters : ∀ list ∈ filters, ∀ filter ∈ list,
      ReadsBack Filter.record.read filter.toJson filter :=
    fun _ _ filter _ => filter.readsBack
  refine .object (.once rfl (Json.readsBack_text _) (.optionalList rfl hfilters)) ?_
  cases filters <;> rfl

namespace Descriptor

/-- A descriptor is read back from its text in every layout that adds nothing but space. -/
theorem ofJson_render (descriptor : Descriptor) {layout : Layout} (hlayout : layout.Spaced) :
    ofJson (descriptor.toJson.render layout) = .ok descriptor := by
  -- the text has nothing in front of the descriptor and nothing behind it
  have hread := descriptor.readsBack.reads hlayout 0 (List.forall_mem_nil _) []
  rw [List.nil_append, List.append_nil] at hread
  have htext : (descriptor.toJson.render layout).toList = descriptor.toJson layout 0 :=
    String.toList_ofList
  rw [← htext] at hread
  rw [ofJson, Json.run_of_reads hread (List.forall_mem_nil _)]
  rfl

/-- A descriptor is read back from its text on one line and from its indented text, whatever
characters it holds: a missing list stays missing, and an empty one stays empty. -/
theorem ofJson_toJson (descriptor : Descriptor) :
    ofJson (descriptor.toJson.render .compact) = .ok descriptor
      ∧ ofJson (descriptor.toJson.render .pretty) = .ok descriptor :=
  ⟨descriptor.ofJson_render Layout.spaced_compact, descriptor.ofJson_render Layout.spaced_pretty⟩

end Descriptor

end Directive
