/-!
# Maps that keep an order

A map from texts to values that keeps its entries in an order, so that an entry can be found by its
place as well as by its key. A new entry stands last. Taking an entry out, or moving it to another
place, shifts the entries in between and leaves them in their order.
-/

namespace Directive

/-- A map whose entries stand in an order. -/
@[ext]
structure OrderedMap (α : Type) where
  /-- The entries, from the first place to the last. -/
  entries : List (String × α)
  /-- A key has one entry. -/
  nodup : (entries.map Prod.fst).Nodup

namespace OrderedMap

variable {α : Type}

/-- A map without entries. -/
def empty : OrderedMap α :=
  ⟨[], List.nodup_nil⟩

/-- The number of entries. -/
def size (map : OrderedMap α) : Nat :=
  map.entries.length

/-- The keys, from the first place to the last. -/
def keys (map : OrderedMap α) : List String :=
  map.entries.map Prod.fst

/-- The place of a key. -/
def indexOf? (map : OrderedMap α) (key : String) : Option (Fin map.entries.length) :=
  map.entries.findFinIdx? fun entry => entry.1 = key

/-- Whether a key has an entry. -/
def contains (map : OrderedMap α) (key : String) : Bool :=
  (map.indexOf? key).isSome

/-- The entry at a place. -/
def entryAt? (map : OrderedMap α) (index : Nat) : Option (String × α) :=
  map.entries[index]?

theorem perm_eraseIdx {entries : List (String × α)} {index : Nat} (h : index < entries.length) :
    (entries[index] :: entries.eraseIdx index).Perm entries := by
  have hentries : entries.take index ++ entries[index] :: entries.drop (index + 1) = entries := by
    rw [List.getElem_cons_drop, List.take_append_drop]
  rw [List.eraseIdx_eq_take_drop_succ]
  exact List.perm_middle.symm.trans (List.Perm.of_eq hentries)

/-- Moves the entry at a place to another place. -/
def move (map : OrderedMap α) (source target : Fin map.entries.length) : OrderedMap α where
  entries := (map.entries.eraseIdx source).insertIdx target (map.entries.get source)
  nodup := by
    have hlength : (map.entries.eraseIdx source).length = map.entries.length - 1 :=
      List.length_eraseIdx_of_lt source.isLt
    have htarget : target.val ≤ (map.entries.eraseIdx source).length := by omega
    have hperm := (List.perm_insertIdx (map.entries.get source) _ htarget).trans
      (perm_eraseIdx source.isLt)
    exact (hperm.map Prod.fst).nodup_iff.mpr map.nodup

theorem map_fst_modify (entries : List (String × α)) (index : Nat) (value : α) :
    (entries.modify index fun entry => (entry.1, value)).map Prod.fst = entries.map Prod.fst := by
  induction entries generalizing index with
  | nil => cases index <;> rfl
  | cons entry entries ih =>
    cases index with
    | zero => rfl
    | succ index => rw [List.modify_succ_cons, List.map_cons, ih, List.map_cons]

/-- Replaces the value at a place, if there is an entry. -/
def setAt (map : OrderedMap α) (index : Nat) (value : α) : OrderedMap α where
  entries := map.entries.modify index fun entry => (entry.1, value)
  nodup := by
    rw [map_fst_modify]
    exact map.nodup

/-- Takes the entry at a place out, if there is one. -/
def removeAt (map : OrderedMap α) (index : Nat) : OrderedMap α where
  entries := map.entries.eraseIdx index
  nodup := ((List.eraseIdx_sublist _ index).map Prod.fst).nodup map.nodup

/-- A key without a place has no entry. -/
theorem indexOf?_eq_none_iff {map : OrderedMap α} {key : String} :
    map.indexOf? key = none ↔ key ∉ map.keys := by
  unfold indexOf? keys
  rw [List.findFinIdx?_eq_none_iff, List.mem_map]
  constructor
  · rintro h ⟨entry, hentry, hkey⟩
    exact h entry hentry (by simpa using hkey)
  · intro h entry hentry hkey
    exact h ⟨entry, hentry, by simpa using hkey⟩

/-- Replaces the value of a key, or adds an entry behind the others. -/
def insert (map : OrderedMap α) (key : String) (value : α) : OrderedMap α :=
  match hindex : map.indexOf? key with
  | some index => map.setAt index value
  | none =>
    { entries := map.entries ++ [(key, value)]
      nodup := by
        have hkey : key ∉ map.entries.map Prod.fst := indexOf?_eq_none_iff.mp hindex
        rw [List.map_append, List.nodup_append]
        refine ⟨map.nodup, by simp, ?_⟩
        rintro other hother _ hmem rfl
        rw [List.map_singleton, List.mem_singleton] at hmem
        rw [hmem] at hother
        exact hkey hother }

/-! ## Sizes -/

@[simp] theorem size_move (map : OrderedMap α) (source target : Fin map.entries.length) :
    (map.move source target).size = map.size := by
  have hlength : (map.entries.eraseIdx source).length = map.entries.length - 1 :=
    List.length_eraseIdx_of_lt source.isLt
  have htarget : target.val ≤ (map.entries.eraseIdx source).length := by omega
  change ((map.entries.eraseIdx source).insertIdx target _).length = map.entries.length
  rw [List.length_insertIdx_of_le_length htarget, hlength]
  omega

@[simp] theorem size_setAt (map : OrderedMap α) (index : Nat) (value : α) :
    (map.setAt index value).size = map.size :=
  List.length_modify _ _ _

theorem size_removeAt_zero (map : OrderedMap α) : (map.removeAt 0).size = map.size - 1 := by
  change (map.entries.eraseIdx 0).length = map.entries.length - 1
  cases map.entries <;> rfl

theorem size_insert_le (map : OrderedMap α) (key : String) (value : α) :
    (map.insert key value).size ≤ map.size + 1 := by
  unfold insert
  split
  · rw [size_setAt]
    omega
  · change (map.entries ++ [(key, value)]).length ≤ map.entries.length + 1
    simp

end OrderedMap

end Directive
