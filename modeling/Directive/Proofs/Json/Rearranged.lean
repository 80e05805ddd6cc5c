import Directive.Proofs.Json.Fields

/-!
# Objects that are rearranged

Changes in the text of an object that a reader of two members does not see: its members stand in
another order, with other space around them, members of other names are added, and a list that is
missing is written as `null`. Such changes may also be made in the items of a list that the object
holds. Main facts:

* `Reordered.means`: an object is read as the same thing with its members in another order and with
  others among them.
* `Rearranged.means`: so it is with changes in the items of its list, and with `null` for the list.
-/

namespace Directive.Json

variable {α β γ δ σ : Type}

/-! ## Changes -/

/-- The members of an object of which `names` are known change: they stand in another order, with
other space around their parts, or a member of another name is added. -/
inductive Reordered (names : List String) : List Char → List Char → Prop
  /-- The members stand in another order, and other space stands around their parts. -/
  | permute {space space' : List Char} {members members' : List Member} (hspace : IsSpace space)
      (hspace' : IsSpace space') (hmembers : ∀ member ∈ members, member.Formed)
      (hmembers' : ∀ member ∈ members', member.Formed)
      (h : (members.map Member.entry).Perm (members'.map Member.entry)) :
      Reordered names (objectText space members) (objectText space' members')
  /-- A member of another name is added. -/
  | insert {space name : List Char} {members : List Member} {member : Member}
      (hspace : IsSpace space) (hmembers : ∀ other ∈ members, other.Formed)
      (hmember : member.Formed) (hkey : Spells member.key name)
      (hname : String.ofList name ∉ names) :
      Reordered names (objectText space members) (objectText space (member :: members))

/-- One item of a list changes. -/
inductive ItemChanged (inner : List Char → List Char → Prop) : List Char → List Char → Prop
  | mk {space value : List Char} {before behind : List Item} {item : Item} (hspace : IsSpace space)
      (hitems : ∀ other ∈ before ++ item :: behind, other.Formed) (h : inner item.value value) :
      ItemChanged inner (listText space (before ++ item :: behind))
        (listText space (before ++ { item with value := value } :: behind))

/-- An object of which the members `first` and `list` are known changes: its members do, or an item
of the list does, or the list is missing and is written as `null`. -/
inductive Rearranged (first list : String) (inner : List Char → List Char → Prop) :
    List Char → List Char → Prop
  /-- The members stand in another order, or one of another name is added. -/
  | members {text text' : List Char} (h : Reordered [first, list] text text') :
      Rearranged first list inner text text'
  /-- The list is missing, and a member for it is added that is `null`. -/
  | null {space : List Char} {members : List Member} {member : Member} (hspace : IsSpace space)
      (hmembers : ∀ other ∈ members, other.Formed) (hmember : member.Formed)
      (habsent : ∀ other ∈ members, ¬ Spells other.key list.toList)
      (hkey : Spells member.key list.toList) (hnull : member.value = ['n', 'u', 'l', 'l']) :
      Rearranged first list inner (objectText space members)
        (objectText space (members ++ [member]))
  /-- An item of the list changes. -/
  | item {space value : List Char} {before behind : List Member} {member : Member}
      (hspace : IsSpace space) (hmembers : ∀ other ∈ before ++ member :: behind, other.Formed)
      (hkey : Spells member.key list.toList) (h : ItemChanged inner member.value value) :
      Rearranged first list inner (objectText space (before ++ member :: behind))
        (objectText space (before ++ { member with value := value } :: behind))
  /-- An item of the list changes where the object is written as a list of its values. -/
  | place {space value : List Char} {item list' : Item} (hspace : IsSpace space)
      (hitem : item.Formed) (hlist : list'.Formed) (h : ItemChanged inner list'.value value) :
      Rearranged first list inner (listText space [item, list'])
        (listText space [item, { list' with value := value }])
  /-- The list is missing where the object is written as a list of its values, and a `null` is
  added. -/
  | placeNull {space : List Char} {item list' : Item} (hspace : IsSpace space) (hitem : item.Formed)
      (hlist : list'.Formed) (hnull : list'.value = ['n', 'u', 'l', 'l']) :
      Rearranged first list inner (listText space [item]) (listText space [item, list'])

/-! ## What is changed stays well formed -/

theorem isValue_listText {space : List Char} {items : List Item} (hspace : IsSpace space)
    (hitems : ∀ item ∈ items, item.Formed) : IsValue (listText space items) :=
  .list hspace (fun item hitem => (hitems item hitem).1) fun item hitem => (hitems item hitem).2

theorem isValue_objectText {space : List Char} {members : List Member} (hspace : IsSpace space)
    (hmembers : ∀ member ∈ members, member.Formed) : IsValue (objectText space members) :=
  .object hspace (fun member hmember => (hmembers member hmember).1)
    fun member hmember => (hmembers member hmember).2

/-- One element of a list takes the place of another. -/
theorem forall_mem_replace {p : α → Prop} {before behind : List α} {a b : α} (hb : p b)
    (h : ∀ c ∈ before ++ a :: behind, p c) : ∀ c ∈ before ++ b :: behind, p c := by
  rw [List.forall_mem_append, List.forall_mem_cons] at h ⊢
  exact ⟨h.1, hb, h.2.2⟩

theorem forall_mem_pair {p : α → Prop} {a b : α} (ha : p a) (hb : p b) : ∀ c ∈ [a, b], p c :=
  List.forall_mem_cons.mpr ⟨ha, List.forall_mem_singleton.mpr hb⟩

theorem Item.Formed.replace {item : Item} {value : List Char} (h : item.Formed)
    (hvalue : IsValue value) : Item.Formed { item with value := value } :=
  ⟨⟨h.1.lead, h.1.trail⟩, hvalue⟩

theorem Member.Formed.replace {member : Member} {value : List Char} (h : member.Formed)
    (hvalue : IsValue value) : Member.Formed { member with value := value } :=
  ⟨⟨⟨h.1.lead, h.1.trail⟩, h.1.start, h.1.key, h.1.gap⟩, hvalue⟩

section Formed

variable {inner : List Char → List Char → Prop} {text text' : List Char}

theorem Reordered.isValue {names : List String} (h : Reordered names text text') :
    IsValue text' := by
  cases h with
  | permute _ hspace' _ hmembers' _ => exact isValue_objectText hspace' hmembers'
  | insert hspace hmembers hmember _ _ =>
    exact isValue_objectText hspace (List.forall_mem_cons.mpr ⟨hmember, hmembers⟩)

theorem ItemChanged.isValue (hinner : ∀ ⦃text text'⦄, inner text text' → IsValue text')
    (h : ItemChanged inner text text') : IsValue text' := by
  cases h with
  | mk hspace hitems h =>
    exact isValue_listText hspace
      (forall_mem_replace ((hitems _ (by simp)).replace (hinner h)) hitems)

theorem Rearranged.isValue {first list : String}
    (hinner : ∀ ⦃text text'⦄, inner text text' → IsValue text')
    (h : Rearranged first list inner text text') : IsValue text' := by
  cases h with
  | members h => exact h.isValue
  | null hspace hmembers hmember _ _ _ =>
    exact isValue_objectText hspace
      (List.forall_mem_append.mpr ⟨hmembers, List.forall_mem_singleton.mpr hmember⟩)
  | item hspace hmembers _ h =>
    exact isValue_objectText hspace
      (forall_mem_replace ((hmembers _ (by simp)).replace (h.isValue hinner)) hmembers)
  | place hspace hitem hlist h =>
    exact isValue_listText hspace (forall_mem_pair hitem (hlist.replace (h.isValue hinner)))
  | placeNull hspace hitem hlist _ =>
    exact isValue_listText hspace (forall_mem_pair hitem hlist)

end Formed

/-! ## What is changed says the same -/

theorem isValue_of_mem_entries {members : List Member} (h : ∀ member ∈ members, member.Formed) :
    ∀ entry ∈ members.map Member.entry, IsValue entry.2 := by
  intro entry hentry
  obtain ⟨member, hmember, rfl⟩ := List.mem_map.mp hentry
  exact (h member hmember).2

/-- An object is read as the same thing with its members in another order and with members of other
names among them. -/
theorem Reordered.means {record : Record σ α} (fields : TwoFields record β γ)
    {text text' : List Char} {value : α} (h : Reordered [fields.first, fields.second] text text')
    (hmeans : Means record.read text value) : Means record.read text' value := by
  cases h with
  | permute hspace hspace' hmembers hmembers' hperm =>
    obtain ⟨final, hgathers, hfinish⟩ :=
      (means_object_iff fields.exactMembers hspace hmembers).mp hmeans
    exact (means_object_iff fields.exactMembers hspace' hmembers').mpr
      ⟨final, fields.gathers_perm (isValue_of_mem_entries hmembers) hperm hgathers, hfinish⟩
  | @insert space name members member hspace hmembers hmember hkey hname =>
    obtain ⟨final, hgathers, hfinish⟩ :=
      (means_object_iff fields.exactMembers hspace hmembers).mp hmeans
    refine (means_object_iff fields.exactMembers hspace
      (List.forall_mem_cons.mpr ⟨hmember, hmembers⟩)).mpr ⟨final, ?_, hfinish⟩
    -- the new member leaves the state as it is
    rw [fields.start_eq] at hgathers ⊢
    simp only [List.mem_cons, List.not_mem_nil, or_false, not_or] at hname
    exact .cons ((TwoFields.admits_iff hmember.2).mpr ⟨hkey, .other hname.1 hname.2⟩) hgathers

/-- A record whose second member is a list that may be missing. -/
structure ListFields (record : Record σ α) (β δ : Type) extends
    TwoFields record β (Option (List δ)) where
  /-- How an item of the list is read. -/
  readItem : Reader δ
  exact_item : Exact readItem
  readSecond_eq : readSecond = Reader.optional (Reader.list readItem)
  finish_none : ∀ a, record.finish (draft a none) = record.finish (draft a (some none))
  ofValues_none : ∀ a, ofValues? a none = ofValues? a (some none)

section Items

variable {inner : List Char → List Char → Prop} {item : Reader δ}

/-- A list is read as the same thing with an item that is. -/
theorem forall₂_replace {γ : Type} {r : α → γ → Prop} {a b : α} (h : ∀ c, r a c → r b c)
    {before behind : List α} {values : List γ}
    (hvalues : List.Forall₂ r (before ++ a :: behind) values) :
    List.Forall₂ r (before ++ b :: behind) values := by
  induction before generalizing values with
  | nil =>
    cases hvalues with
    | cons ha hmore => exact .cons (h _ ha) hmore
  | cons c before ih =>
    cases hvalues with
    | cons hc hmore => exact .cons hc (ih hmore)

/-- A list that may be missing is read as the same thing when one of its items changes. -/
theorem ItemChanged.means (hexact : Exact item)
    (hinner : ∀ ⦃text text' value⦄, inner text text' → Means item text value →
      Means item text' value)
    (hformed : ∀ ⦃text text'⦄, inner text text' → IsValue text') {text text' : List Char}
    {result : Option (List δ)} (h : ItemChanged inner text text')
    (hmeans : Means (Reader.optional (Reader.list item)) text result) :
    Means (Reader.optional (Reader.list item)) text' result := by
  cases h with
  | @mk space value before behind changed hspace hitems h =>
    have hitems' : ∀ other ∈ before ++ { changed with value := value } :: behind, other.Formed :=
      forall_mem_replace ((hitems changed (by simp)).replace (hformed h)) hitems
    -- a list is no `null`
    have hread := hmeans isSpace_nil delimits_nil
    obtain ⟨values, hvalues, rfl⟩ := (reads_optional_iff isSpace_nil rfl (by decide)).mp hread
    obtain ⟨-, hlist⟩ :=
      hexact.list (isValue_listText hspace hitems) isSpace_nil delimits_nil hvalues
    have hchanged : List.Forall₂ (fun other value => Means item other.value value)
        (before ++ { changed with value := value } :: behind) values :=
      forall₂_replace (r := fun (other : Item) => Means item other.value) (fun _ => hinner h)
        ((means_list_iff hexact hspace hitems).mp hlist)
    have hlist' := (means_list_iff hexact hspace hitems').mpr hchanged
    exact hlist'.optional (isValue_listText hspace hitems') (by simp [listText, enclosed])

end Items

/-- An object with a list that may be missing is read as the same thing when it is rearranged, if
its items are. -/
theorem Rearranged.means {record : Record σ α} (fields : ListFields record β δ)
    {inner : List Char → List Char → Prop}
    (hinner : ∀ ⦃text text' value⦄, inner text text' → Means fields.readItem text value →
      Means fields.readItem text' value)
    (hformed : ∀ ⦃text text'⦄, inner text text' → IsValue text') {text text' : List Char}
    {value : α} (h : Rearranged fields.first fields.second inner text text')
    (hmeans : Means record.read text value) : Means record.read text' value := by
  have hlist {text text' : List Char} {result : Option (List δ)} (h : ItemChanged inner text text')
      (hmeans : Means fields.readSecond text result) : Means fields.readSecond text' result := by
    rw [fields.readSecond_eq] at hmeans ⊢
    exact h.means fields.exact_item hinner hformed hmeans
  have hnone {text : List Char} (hnull : text = ['n', 'u', 'l', 'l']) :
      Means fields.readSecond text none := by
    rw [fields.readSecond_eq, hnull]
    exact means_optional_null _
  have hexact := fields.exactMembers
  cases h with
  | members h => exact h.means fields.toTwoFields hmeans
  | @null space members member hspace hmembers hmember habsent hkey hnull =>
    have hmembers' : ∀ other ∈ members ++ [member], other.Formed :=
      List.forall_mem_append.mpr ⟨hmembers, List.forall_mem_singleton.mpr hmember⟩
    obtain ⟨final, hgathers, hfinish⟩ := (means_object_iff hexact hspace hmembers).mp hmeans
    -- the place of the list is still empty behind all members, and is filled with nothing
    have hnames : ∀ entry ∈ members.map Member.entry, ∀ name, Spells entry.1 name →
        String.ofList name ≠ fields.second := by
      intro entry hentry name hname heq
      obtain ⟨other, hother, rfl⟩ := List.mem_map.mp hentry
      apply habsent other hother
      rwa [← heq, String.toList_ofList]
    rw [fields.start_eq] at hgathers
    obtain ⟨c, rfl⟩ := fields.second_eq_none (isValue_of_mem_entries hmembers) hnames hgathers
    have hadmits : record.Admits (fields.draft c none) member.entry fields.second.toList
        (fields.draft c (some none)) :=
      (TwoFields.admits_iff hmember.2).mpr ⟨hkey, .second String.ofList_toList rfl (hnone hnull)⟩
    refine (means_object_iff hexact hspace hmembers').mpr ⟨fields.draft c (some none), ?_, ?_⟩
    · rw [List.map_append, fields.start_eq]
      exact Record.Gathers.append_iff.mpr ⟨_, hgathers, .cons hadmits (.nil _)⟩
    · rw [← fields.finish_none, hfinish]
  | @item space value' before behind member hspace hmembers hkey h =>
    -- the members in front of the list and behind it lead on as before
    have hmember : member.Formed := hmembers member (by simp)
    have hmember' := hmember.replace (h.isValue hformed)
    obtain ⟨final, hgathers, hfinish⟩ := (means_object_iff hexact hspace hmembers).mp hmeans
    rw [List.map_append, List.map_cons, Record.Gathers.append_iff] at hgathers
    obtain ⟨state, hbefore, _ | ⟨hadmits, hbehind⟩⟩ := hgathers
    have hadmits' :=
      TwoFields.admits_second_replace hkey hmember.2 hmember'.2 (fun _ => hlist h) hadmits
    refine (means_object_iff hexact hspace (forall_mem_replace hmember' hmembers)).mpr
      ⟨final, ?_, hfinish⟩
    rw [List.map_append, List.map_cons, Record.Gathers.append_iff]
    exact ⟨_, hbefore, .cons hadmits' hbehind⟩
  | @place space value' item list' hspace hitem hlist' h =>
    have hitems := forall_mem_pair hitem hlist'
    have hitems' := forall_mem_pair hitem (hlist'.replace (h.isValue hformed))
    rw [fields.means_positions_iff hspace hitems] at hmeans
    rw [fields.means_positions_iff hspace hitems']
    cases hmeans with
    | two hfirst hsecond hvalue => exact .two hfirst (hlist h hsecond) hvalue
  | @placeNull space item list' hspace hitem hlist' hnull =>
    have hitems : ∀ other ∈ [item], other.Formed := List.forall_mem_singleton.mpr hitem
    rw [fields.means_positions_iff hspace hitems] at hmeans
    rw [fields.means_positions_iff hspace
      (forall_mem_pair hitem hlist')]
    cases hmeans with
    | one hfirst hvalue =>
      rw [fields.ofValues_none] at hvalue
      exact .two hfirst (hnone hnull) hvalue

end Directive.Json
