import Directive.Proofs.Json.Reading

/-!
# Written values are read back

What a writer writes is read back by the reader of the same kind, wherever it stands: at any level,
behind space and in front of any text. It does not matter how the parts are set apart, as long as
it is by space. Main facts:

* `readsBack_text`, `readsBack_bool`: strings and truth values are read back.
* `ReadsBack.list`: a list is read back if its items are.
* `ReadsBack.object`: an object is read back if its members lead to what it stands for.
-/

namespace Directive.Json

open Reader (isSpace afterSpace)

/-! ## Layouts -/

namespace Layout

/-- A layout that sets parts apart by nothing but space. -/
structure Spaced (layout : Layout) : Prop where
  /-- Space stands before an item. -/
  lineBreak : ∀ level, ∀ c ∈ layout.lineBreak level, isSpace c = true
  /-- Space stands before the value of a member. -/
  gap : ∀ c ∈ layout.gap, isSpace c = true

theorem spaced_compact : compact.Spaced where
  lineBreak level c hc := by simp [compact] at hc
  gap c hc := by simp [compact] at hc

theorem spaced_pretty : pretty.Spaced where
  lineBreak level c hc := by
    simp only [pretty, List.mem_cons, List.mem_replicate] at hc
    rcases hc with rfl | ⟨-, rfl⟩ <;> rfl
  gap c hc := by
    obtain rfl := List.mem_singleton.mp hc
    rfl

/-- What follows the first item between brackets: the other items, each behind a comma, and the
closing bracket. -/
def afterItem (layout : Layout) (level : Nat) (closer : Char) : List (List Char) → List Char
  | [] => layout.lineBreak level ++ [closer]
  | item :: items =>
    ',' :: (layout.lineBreak (level + 1) ++ (item ++ layout.afterItem level closer items))

theorem intercalate_append (layout : Layout) (level : Nat) (closer : Char) (item : List Char)
    (items : List (List Char)) :
    [','].intercalate ((item :: items).map (layout.lineBreak (level + 1) ++ ·))
        ++ (layout.lineBreak level ++ [closer])
      = layout.lineBreak (level + 1) ++ (item ++ layout.afterItem level closer items) := by
  induction items generalizing item with
  | nil => simp [afterItem]
  | cons next items ih =>
    -- the comma that joins two items is the one that `afterItem` puts in front of the second
    have hnext := ih next
    rw [List.map_cons] at hnext
    rw [List.map_cons, List.map_cons, List.intercalate_cons_cons, afterItem, ← hnext]
    simp

/-- Items between brackets, seen from the first one. -/
theorem enclose_cons (layout : Layout) (level : Nat) (opener closer : Char) (item : List Char)
    (items : List (List Char)) :
    layout.enclose level opener closer (item :: items)
      = opener :: (layout.lineBreak (level + 1) ++ (item ++ layout.afterItem level closer items)) := by
  rw [← intercalate_append]
  simp [enclose]

end Layout

variable {α β σ : Type}

/-- What a writer writes is read back as `value`. -/
structure ReadsBack (reader : Reader α) (writer : Writer) (value : α) : Prop where
  /-- It starts with a character that no space, no end of a list and no `null` starts with. -/
  starts : ∀ layout level, ∃ c more, writer layout level = c :: more
    ∧ isSpace c = false ∧ c ≠ ']' ∧ c ≠ 'n'
  /-- It is taken from behind space, whatever follows it. -/
  reads : ∀ {layout : Layout}, layout.Spaced → ∀ level {lead : List Char},
    (∀ c ∈ lead, isSpace c = true) → ∀ rest,
      Reads reader (lead ++ (writer layout level ++ rest)) value rest

theorem ReadsBack.map {reader : Reader α} {writer : Writer} {value : α}
    (h : ReadsBack reader writer value) (f : α → β) : ReadsBack (f <$> reader) writer (f value) where
  starts := h.starts
  reads hlayout level _ hlead rest := (h.reads hlayout level hlead rest).map f

/-! ## Scalars -/

theorem readsBack_text (value : String) : ReadsBack Reader.text (.text value) value where
  starts _ _ := ⟨'\x22', _, rfl, rfl, by decide, by decide⟩
  reads _ _ _ hlead rest := by
    refine Reads.dispatch (afterSpace_append hlead rfl _) rfl ((Reads.skip _ _).bind ?_)
    simpa using reads_string value rest

theorem readsBack_bool (value : Bool) : ReadsBack Reader.bool (.bool value) value where
  starts _ _ := by cases value <;> exact ⟨_, _, rfl, rfl, by decide, by decide⟩
  reads _ _ _ hlead rest := by
    cases value with
    | true =>
      refine Reads.dispatch (afterSpace_append hlead rfl _) rfl ?_
      exact (Reads.word ['t', 'r', 'u', 'e'] rest).bind (Reads.pure true rest)
    | false =>
      refine Reads.dispatch (afterSpace_append hlead rfl _) rfl ?_
      exact (Reads.word ['f', 'a', 'l', 's', 'e'] rest).bind (Reads.pure false rest)

/-- What is written starts with a character that is no space, and the value is read from there. -/
theorem ReadsBack.exists_cons {reader : Reader α} {writer : Writer} {value : α}
    (h : ReadsBack reader writer value) {layout : Layout} (hlayout : layout.Spaced) (level : Nat)
    (rest : List Char) :
    ∃ c more, writer layout level ++ rest = c :: more ∧ isSpace c = false ∧ c ≠ ']' ∧ c ≠ 'n'
      ∧ Reads reader (c :: more) value rest := by
  obtain ⟨c, more, hwriter, hstart⟩ := h.starts layout level
  have hread := h.reads hlayout level (List.forall_mem_nil _) rest
  rw [List.nil_append, hwriter, List.cons_append] at hread
  rw [hwriter, List.cons_append]
  exact ⟨c, more ++ rest, rfl, hstart.1, hstart.2.1, hstart.2.2, hread⟩

/-- A value that is no `null` is read as a value that may be missing. -/
theorem ReadsBack.optional {reader : Reader α} {writer : Writer} {value : α}
    (h : ReadsBack reader writer value) :
    ReadsBack (Reader.optional reader) writer (some value) where
  starts := h.starts
  reads hlayout level lead hlead rest := by
    obtain ⟨c, more, hwriter, hspace, -, hnull, hread⟩ := h.exists_cons hlayout level rest
    rw [hwriter]
    refine (Reads.space _).bind ?_
    rw [afterSpace_append hlead hspace]
    -- the reader looks at one character, and only that of `null` makes the value a missing one
    refine (Reads.peek _).bind ?_
    rw [List.head?_cons, if_neg fun hc => hnull (Option.some.inj hc)]
    exact hread.map some

/-! ## Lists -/

section List

variable {item : Reader α} {isFirst : Bool} {seen values : List α} {value : α}
variable {text middle rest : List Char} {c : Char}

theorem listItem_closer (htext : afterSpace text = ']' :: rest) :
    ∃ h, Reader.listItem isFirst text = .ok (.closer (']' :: rest) h) := by
  have hlt := Reader.length_lt_of_afterSpace htext
  unfold Reader.listItem
  split
  case h_1 hnil => cases htext.symm.trans hnil
  case h_2 hcons =>
    obtain ⟨rfl, rfl⟩ := List.cons.inj (htext.symm.trans hcons)
    exact ⟨hlt, rfl⟩

theorem listItem_first (htext : afterSpace text = c :: rest) (hc : c ≠ ']') :
    ∃ h, Reader.listItem true text = .ok (.next (c :: rest) h) := by
  have hlt := Reader.length_lt_of_afterSpace htext
  unfold Reader.listItem
  split
  case h_1 hnil => cases htext.symm.trans hnil
  case h_2 hcons =>
    obtain ⟨rfl, rfl⟩ := List.cons.inj (htext.symm.trans hcons)
    simp [hc, hlt]

theorem listItem_later (htext : afterSpace text = ',' :: middle)
    (hmiddle : afterSpace middle = c :: rest) (hc : c ≠ ']') :
    ∃ h, Reader.listItem false text = .ok (.next (c :: rest) h) := by
  have hlt := Reader.length_lt_of_afterSpace htext
  have hlt' := Reader.length_lt_of_afterSpace hmiddle
  unfold Reader.listItem
  split
  case h_1 hnil => cases htext.symm.trans hnil
  case h_2 hcons =>
    obtain ⟨rfl, rfl⟩ := List.cons.inj (htext.symm.trans hcons)
    have hcloser : ',' ≠ ']' := by decide
    simp only [hcloser, ↓reduceIte, Bool.false_eq_true, ↓reduceDIte]
    -- behind the comma an item has to follow: a closing bracket there is an error
    split
    case h_1 hnil => cases hmiddle.symm.trans hnil
    case h_2 hcons =>
      obtain ⟨rfl, rfl⟩ := List.cons.inj (hmiddle.symm.trans hcons)
      simp [hc]
      omega

theorem reads_itemsFrom_closer (htext : afterSpace text = ']' :: rest) :
    Reads (Reader.itemsFrom item isFirst seen) text seen.reverse rest := by
  obtain ⟨hle, hitem⟩ : ∃ h, Reader.listItem isFirst text = .ok (.closer (']' :: rest) h) :=
    listItem_closer htext
  refine ⟨Nat.le_of_succ_le hle, ?_⟩
  rw [Reader.itemsFrom, hitem]
  rfl

theorem reads_itemsFrom_next
    (hitem : ∃ h, Reader.listItem isFirst text = .ok (.next middle h))
    (hvalue : Reads item middle value rest) {left : List Char}
    (hmore : Reads (Reader.itemsFrom item false (value :: seen)) rest values left) :
    Reads (Reader.itemsFrom item isFirst seen) text values left := by
  obtain ⟨hle, hitem⟩ := hitem
  obtain ⟨hle', hvalue⟩ := hvalue
  obtain ⟨hle'', hmore⟩ := hmore
  have hfirst := isFirst.toNat_le
  refine ⟨by omega, ?_⟩
  rw [Reader.itemsFrom, hitem]
  simp only [hvalue, hmore]
  rfl

end List

/-- The items of a list after the first one are read back up to the closing bracket. -/
theorem reads_afterItem {item : Reader α} {write : α → Writer} {layout : Layout}
    (hlayout : layout.Spaced) (level : Nat) {values : List α}
    (h : ∀ value ∈ values, ReadsBack item (write value) value) (seen : List α)
    (rest : List Char) :
    Reads (Reader.itemsFrom item false seen)
      (layout.afterItem level ']' (values.map fun value => write value layout (level + 1)) ++ rest)
      (seen.reverse ++ values) rest := by
  induction values generalizing seen with
  | nil =>
    rw [List.append_nil, List.map_nil, Layout.afterItem, List.append_assoc, List.singleton_append]
    exact reads_itemsFrom_closer (afterSpace_append (hlayout.lineBreak level) rfl rest)
  | cons value values ih =>
    obtain ⟨hvalue, hvalues⟩ := List.forall_mem_cons.mp h
    -- the values read so far are kept in reverse
    have hmore := ih hvalues (value :: seen)
    rw [List.reverse_cons, List.append_assoc, List.singleton_append] at hmore
    obtain ⟨c, more, hwrite, hspace, hcloser, -, hread⟩ := hvalue.exists_cons hlayout (level + 1)
      (layout.afterItem level ']' (values.map fun value => write value layout (level + 1)) ++ rest)
    simp only [List.map_cons, Layout.afterItem, List.cons_append, List.append_assoc]
    rw [hwrite]
    -- behind the comma and the space after it the value starts
    have hcomma := afterSpace_append (List.forall_mem_nil _) (c := ',') rfl
      (layout.lineBreak (level + 1) ++ c :: more)
    have hstart := afterSpace_append (hlayout.lineBreak (level + 1)) hspace more
    exact reads_itemsFrom_next (listItem_later hcomma hstart hcloser) hread hmore

/-- A list is read back if its items are. -/
theorem ReadsBack.list {item : Reader α} {write : α → Writer} {values : List α}
    (h : ∀ value ∈ values, ReadsBack item (write value) value) :
    ReadsBack (Reader.list item) (.list (values.map write)) values where
  starts layout level := by
    cases values with
    | nil => exact ⟨'[', [']'], rfl, by decide⟩
    | cons value values =>
      rw [Writer.list, List.map_cons, List.map_cons, Layout.enclose_cons]
      exact ⟨'[', _, rfl, by decide⟩
  reads {layout} hlayout level lead hlead rest := by
    cases values with
    | nil =>
      refine Reads.dispatch (afterSpace_append hlead rfl (']' :: rest)) rfl ?_
      exact (Reads.skip '[' _).bind (reads_itemsFrom_closer rfl)
    | cons value values =>
      -- the first value has no comma in front of it, and after it the list goes on as above
      obtain ⟨hvalue, hvalues⟩ := List.forall_mem_cons.mp h
      have hmore := reads_afterItem hlayout level hvalues [value] rest
      obtain ⟨c, more, hwrite, hspace, hcloser, -, hread⟩ := hvalue.exists_cons hlayout (level + 1)
        (layout.afterItem level ']' (values.map fun value => write value layout (level + 1)) ++ rest)
      have htext : Writer.list ((value :: values).map write) layout level ++ rest
          = '[' :: (layout.lineBreak (level + 1) ++ c :: more) := by
        rw [← hwrite]
        simp [Writer.list, Layout.enclose_cons, Function.comp_def]
      have hstart := afterSpace_append (hlayout.lineBreak (level + 1)) hspace more
      rw [htext]
      refine Reads.dispatch (afterSpace_append hlead rfl _) rfl ((Reads.skip '[' _).bind ?_)
      exact reads_itemsFrom_next (listItem_first hstart hcloser) hread hmore

/-! ## Objects -/

section Object

variable {isFirst : Bool} {text middle rest : List Char}

theorem objectItem_closer (htext : afterSpace text = '\x7d' :: rest) :
    ∃ h, Reader.objectItem isFirst text = .ok (.closer ('\x7d' :: rest) h) := by
  have hlt := Reader.length_lt_of_afterSpace htext
  unfold Reader.objectItem
  split
  case h_1 hnil => cases htext.symm.trans hnil
  case h_2 hcons =>
    obtain ⟨rfl, rfl⟩ := List.cons.inj (htext.symm.trans hcons)
    exact ⟨hlt, rfl⟩

theorem objectItem_first (htext : afterSpace text = '\x22' :: rest) :
    ∃ h, Reader.objectItem true text = .ok (.next ('\x22' :: rest) h) := by
  have hlt := Reader.length_lt_of_afterSpace htext
  unfold Reader.objectItem
  split
  case h_1 hnil => cases htext.symm.trans hnil
  case h_2 hcons =>
    obtain ⟨rfl, rfl⟩ := List.cons.inj (htext.symm.trans hcons)
    simp [hlt]

theorem objectItem_later (htext : afterSpace text = ',' :: middle)
    (hmiddle : afterSpace middle = '\x22' :: rest) :
    ∃ h, Reader.objectItem false text = .ok (.next ('\x22' :: rest) h) := by
  have hlt := Reader.length_lt_of_afterSpace htext
  have hlt' := Reader.length_lt_of_afterSpace hmiddle
  unfold Reader.objectItem
  split
  case h_1 hnil => cases htext.symm.trans hnil
  case h_2 hcons =>
    obtain ⟨rfl, rfl⟩ := List.cons.inj (htext.symm.trans hcons)
    have hcloser : ',' ≠ '\x7d' := by decide
    simp only [hcloser, ↓reduceIte, Bool.false_eq_true, ↓reduceDIte]
    split
    case h_1 hnil => cases hmiddle.symm.trans hnil
    case h_2 hcons =>
      obtain ⟨rfl, rfl⟩ := List.cons.inj (hmiddle.symm.trans hcons)
      simp
      omega

variable {record : Record σ α} {state next final : σ}

theorem reads_membersFrom_closer (htext : afterSpace text = '\x7d' :: rest) :
    Reads (record.membersFrom isFirst state) text state ('\x7d' :: rest) := by
  obtain ⟨hle, hitem⟩ : ∃ h, Reader.objectItem isFirst text = .ok (.closer ('\x7d' :: rest) h) :=
    objectItem_closer htext
  refine ⟨hle, ?_⟩
  rw [Record.membersFrom, hitem]

/-- A member is read: its key, the colon and what the record asks for, and then the other
members. -/
theorem reads_membersFrom_next {key : String} {value : Reader σ} {entry : List Char}
    (hitem : ∃ h, Reader.objectItem isFirst text
      = .ok (.next ('\x22' :: (key.toList.flatMap escape ++ '\x22' :: ':' :: entry)) h))
    (hmember : record.member state key = .ok value) (hvalue : Reads value entry next middle)
    (hmore : Reads (record.membersFrom false next) middle final rest) :
    Reads (record.membersFrom isFirst state) text final rest := by
  obtain ⟨hlt, hitem⟩ := hitem
  obtain ⟨hkeyLe, hkey⟩ := reads_string key (':' :: entry)
  have hentry : Reads (do Reader.colon; value) (':' :: entry) next middle :=
    (Reads.colon rfl).bind hvalue
  obtain ⟨hentryLe, hentry⟩ := hentry
  obtain ⟨hmoreLe, hmore⟩ := hmore
  have hfirst := isFirst.toNat_le
  simp only [List.length_cons] at hlt hkeyLe hentryLe
  refine ⟨by omega, ?_⟩
  rw [Record.membersFrom, hitem]
  simp only [List.tail_cons, hkey, hmember, hentry, hmore]
  rfl

end Object

/-- A member of an object as it is written at a level. -/
def Writer.member (layout : Layout) (level : Nat) (entry : String × Writer) : List Char :=
  quoted entry.1.toList ++ ':' :: layout.gap ++ entry.2 layout level

theorem Writer.object_eq (members : List (String × Writer)) (layout : Layout) (level : Nat) :
    Writer.object members layout level
      = layout.enclose level '{' '\x7d' (members.map (Writer.member layout (level + 1))) := rfl

/-- A member is a key, a colon and a value. -/
theorem Writer.member_append (layout : Layout) (level : Nat) (key : String) (value : Writer)
    (rest : List Char) :
    Writer.member layout level (key, value) ++ rest
      = '\x22' :: (key.toList.flatMap escape
        ++ '\x22' :: ':' :: (layout.gap ++ (value layout level ++ rest))) := by
  simp [Writer.member, quoted]

/-- The members of an object lead a record from one state to another: each of them is wanted, and
its value is read back as the state after it. -/
inductive Record.Leads (record : Record σ α) : σ → List (String × Writer) → σ → Prop
  /-- No members leave the state as it is. -/
  | nil (state : σ) : record.Leads state [] state
  /-- A member leads to the state that its value is read back as. -/
  | cons {state next final : σ} {key : String} {writer : Writer} {value : Reader σ}
      {members : List (String × Writer)} (hmember : record.member state key = .ok value)
      (hvalue : ReadsBack value writer next) (hmore : record.Leads next members final) :
      record.Leads state ((key, writer) :: members) final

/-- The members of an object after the first one are read back up to the closing bracket. -/
theorem Record.Leads.reads {record : Record σ α} {state final : σ}
    {members : List (String × Writer)} (h : record.Leads state members final) {layout : Layout}
    (hlayout : layout.Spaced) (level : Nat) (rest : List Char) :
    Reads (record.membersFrom false state)
      (layout.afterItem level '\x7d' (members.map (Writer.member layout (level + 1))) ++ rest)
      final ('\x7d' :: rest) := by
  -- along the members: each is read in the state that the ones before it led to
  induction h with
  | nil state =>
    rw [List.map_nil, Layout.afterItem, List.append_assoc, List.singleton_append]
    exact reads_membersFrom_closer (afterSpace_append (hlayout.lineBreak level) rfl rest)
  | cons hmember hvalue _ ih =>
    simp only [List.map_cons, Layout.afterItem, List.cons_append, List.append_assoc,
      Writer.member_append]
    have hkey := afterSpace_append (hlayout.lineBreak (level + 1)) (c := '\x22') rfl
    have hread := hvalue.reads hlayout (level + 1) hlayout.gap
    exact reads_membersFrom_next (objectItem_later rfl (hkey _)) hmember (hread _) ih

/-- An object is read back if its members lead to a state that what it stands for is made of. -/
theorem ReadsBack.object {record : Record σ α} {members : List (String × Writer)} {final : σ}
    {value : α} (h : record.Leads record.start members final)
    (hfinish : record.finish final = .ok value) :
    ReadsBack record.read (.object members) value where
  starts layout level := by
    rw [Writer.object_eq]
    cases members with
    | nil => exact ⟨'{', ['\x7d'], rfl, by decide⟩
    | cons member members =>
      rw [List.map_cons, Layout.enclose_cons]
      exact ⟨'{', _, rfl, by decide⟩
  reads {layout} hlayout level lead hlead rest := by
    have hclose : Reads (record.close final) ('\x7d' :: rest) value rest := by
      rw [Record.close, hfinish]
      exact (Reads.skip '\x7d' rest).bind (Reads.pure value rest)
    -- the first member has no comma in front of it, as the first item of a list
    cases h with
    | nil =>
      refine Reads.dispatch (afterSpace_append hlead rfl ('\x7d' :: rest)) rfl ?_
      exact (Reads.skip '{' _).bind ((reads_membersFrom_closer rfl).bind hclose)
    | @cons _ next _ key writer reader members hmember hvalue hmore =>
      have htext : Writer.object ((key, writer) :: members) layout level ++ rest
          = '{' :: (layout.lineBreak (level + 1) ++ (Writer.member layout (level + 1) (key, writer)
            ++ (layout.afterItem level '\x7d' (members.map (Writer.member layout (level + 1)))
              ++ rest))) := by
        simp [Writer.object_eq, Layout.enclose_cons]
      have hread := hvalue.reads hlayout (level + 1) hlayout.gap
      have hkey := afterSpace_append (hlayout.lineBreak (level + 1)) (c := '\x22') rfl
      have hmembers := reads_membersFrom_next (objectItem_first (hkey _)) hmember (hread _)
        (hmore.reads hlayout level rest)
      rw [htext, Writer.member_append]
      refine Reads.dispatch (afterSpace_append hlead rfl _) rfl ?_
      exact (Reads.skip '{' _).bind (hmembers.bind hclose)

end Directive.Json
