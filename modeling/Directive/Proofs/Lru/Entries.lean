import Directive.Lru
import Mathlib.Data.List.DropRight
import Mathlib.Data.List.Nodup

/-!
# The entries of a cache

What looking up and putting do to the entries of a cache, taken as a list. Main facts:

* `Lru.entries_put`: a key that is put has its entry behind those of the other keys, and as many
  entries are kept, from the end, as the cache may hold.
* `Lru.get_of_mem`, `Lru.get_of_not_mem`: looking a key up gives its value and is putting it again,
  or finds nothing and changes nothing.
-/

namespace Directive

variable {α : Type}

/-! ## Places -/

namespace OrderedMap

/-- The entries of the other keys. -/
def others (map : OrderedMap α) (key : String) : List (String × α) :=
  map.entries.filter fun entry => entry.1 ≠ key

/-- Where keys are distinct, taking out the entry of a key leaves the entries of the others. -/
theorem eraseIdx_eq_filter {entries : List (String × α)} (hnodup : (entries.map Prod.fst).Nodup)
    (index : Fin entries.length) :
    entries.eraseIdx index = entries.filter fun entry => entry.1 ≠ (entries.get index).1 := by
  induction entries with
  | nil => exact index.elim0
  | cons entry entries ih =>
    rw [List.map_cons, List.nodup_cons] at hnodup
    obtain ⟨hentry, hnodup⟩ := hnodup
    cases index using Fin.cases with
    | zero =>
      have hne : ∀ other ∈ entries, decide (other.1 ≠ entry.1) = true := by
        intro other hother
        refine decide_eq_true fun heq => hentry ?_
        exact List.mem_map.mpr ⟨other, hother, heq⟩
      change entries = (entry :: entries).filter fun other => other.1 ≠ entry.1
      rw [List.filter_cons_of_neg (by simp), List.filter_eq_self.mpr hne]
    | succ index =>
      have hne : entry.1 ≠ (entries.get index).1 := fun heq =>
        hentry (List.mem_map.mpr ⟨entries.get index, List.get_mem _ _, heq.symm⟩)
      change entry :: entries.eraseIdx index
        = (entry :: entries).filter fun other => other.1 ≠ (entries.get index).1
      rw [List.filter_cons_of_pos (by simpa using hne), ih hnodup index]

variable {map : OrderedMap α} {key : String}

/-- The place of a key holds an entry of the key. -/
theorem get_of_indexOf? {index : Fin map.entries.length} (h : map.indexOf? key = some index) :
    (map.entries.get index).1 = key := by
  have hentry := (List.findFinIdx?_eq_some_iff.mp h).1
  simpa using hentry

/-- Taking out the entry at the place of a key leaves the entries of the others. -/
theorem eraseIdx_of_indexOf? {index : Fin map.entries.length} (h : map.indexOf? key = some index) :
    map.entries.eraseIdx index = map.others key := by
  rw [others, ← get_of_indexOf? h]
  exact eraseIdx_eq_filter map.nodup index

/-- An entry has the place of its key. -/
theorem exists_indexOf?_of_mem {entry : String × α} (h : entry ∈ map.entries) :
    ∃ index, map.indexOf? entry.1 = some index ∧ map.entries.get index = entry := by
  have hkey : entry.1 ∈ map.keys := List.mem_map.mpr ⟨entry, h, rfl⟩
  cases hindex : map.indexOf? entry.1 with
  | none => exact absurd hkey (indexOf?_eq_none_iff.mp hindex)
  | some index =>
    -- keys are distinct, so that no other entry has this key
    have hinjective := List.inj_on_of_nodup_map map.nodup
    exact ⟨index, rfl, hinjective (List.get_mem _ _) h (get_of_indexOf? hindex)⟩

theorem contains_iff : map.contains key = true ↔ key ∈ map.keys := by
  rw [contains, Option.isSome_iff_ne_none, ne_eq, indexOf?_eq_none_iff, Decidable.not_not]

/-- Without an entry for the key all entries are those of others. -/
theorem others_of_not_mem (h : key ∉ map.keys) : map.others key = map.entries := by
  refine List.filter_eq_self.mpr fun entry hentry => ?_
  have hne : entry.1 ≠ key := fun heq => h (List.mem_map.mpr ⟨entry, hentry, heq⟩)
  simpa using hne

/-- An entry and those of the other keys are all entries. -/
theorem others_perm {entry : String × α} (h : entry ∈ map.entries) :
    (map.others entry.1 ++ [entry]).Perm map.entries := by
  obtain ⟨index, hindex, rfl⟩ := exists_indexOf?_of_mem h
  rw [← eraseIdx_of_indexOf? hindex]
  exact (List.perm_append_singleton _ _).trans (perm_eraseIdx index.isLt)

/-- A new entry stands behind the others. -/
theorem entries_insert (h : key ∉ map.keys) (value : α) :
    (map.insert key value).entries = map.entries ++ [(key, value)] := by
  unfold insert
  split
  case h_1 index hindex =>
    rw [indexOf?_eq_none_iff.mpr h] at hindex
    cases hindex
  case h_2 => rfl

/-- The keys of the others. -/
theorem map_fst_others (map : OrderedMap α) (key : String) :
    (map.others key).map Prod.fst = map.keys.filter (· ≠ key) := by
  rw [others, keys, List.filter_map]
  rfl

end OrderedMap

/-! ## Uses -/

/-- A list that is short enough is kept as it is. -/
theorem rtake_of_length_le {items : List α} {count : Nat} (h : items.length ≤ count) :
    items.rtake count = items := by
  rw [List.rtake, Nat.sub_eq_zero_of_le h, List.drop_zero]

theorem modify_length_concat (items : List α) (item : α) (f : α → α) :
    (items ++ [item]).modify items.length f = items ++ [f item] := by
  induction items with
  | nil => rfl
  | cons other items ih => simpa using ih

namespace Lru

variable {cache : Lru α} {key : String}

/-- An entry that is used stands behind those of the other keys. -/
theorem entries_use {index : Fin cache.entries.entries.length}
    (h : cache.entries.indexOf? key = some index) :
    (cache.use index).entries.entries
      = cache.entries.others key ++ [cache.entries.entries.get index] := by
  have hothers := OrderedMap.eraseIdx_of_indexOf? h
  have hlast : cache.last = (cache.entries.others key).length := by
    rw [← hothers, List.length_eraseIdx_of_lt index.isLt]
    rfl
  change (cache.entries.entries.eraseIdx index).insertIdx cache.last _ = _
  rw [hothers, hlast, List.insertIdx_length_self]

/-- The entry that was used last is at the last place. -/
theorem last_use {index : Fin cache.entries.entries.length}
    (h : cache.entries.indexOf? key = some index) :
    (cache.use index).last = (cache.entries.others key).length := by
  rw [last, OrderedMap.size, entries_use h, List.length_append]
  rfl

/-- The other keys leave room for one more entry. -/
theorem length_others_lt (h : key ∈ cache.keys) :
    (cache.entries.others key).length < cache.capacity.toNat := by
  obtain ⟨entry, hentry, hkey⟩ := List.mem_map.mp h
  have hsize : cache.entries.entries.length ≤ cache.capacity.toNat := cache.size_le
  have hlt : (cache.entries.others key).length < cache.entries.entries.length :=
    List.length_filter_lt_length_iff_exists.mpr ⟨entry, hentry, by simpa using hkey⟩
  omega

/-- The entries that are left when there is room for one more. -/
theorem entries_makeRoom (cache : Lru α) :
    cache.makeRoom.entries = cache.entries.entries.rtake (cache.capacity.toNat - 1) := by
  have hsize : cache.entries.entries.length ≤ cache.capacity.toNat := cache.size_le
  have hpos : 0 < cache.capacity.toNat := cache.capacity.count_pos
  unfold makeRoom
  split
  case isTrue hfull =>
    -- the cache is full, so that one entry too many is one entry
    have hlength : cache.entries.entries.length = cache.capacity.toNat :=
      Nat.le_antisymm hsize hfull
    have hone : cache.capacity.toNat - (cache.capacity.toNat - 1) = 1 := by omega
    change cache.entries.entries.eraseIdx 0 = _
    rw [List.rtake, hlength, hone, List.eraseIdx_zero, List.drop_one]
  case isFalse hroom =>
    have hlt : cache.entries.entries.length < cache.capacity.toNat := Nat.lt_of_not_le hroom
    rw [rtake_of_length_le (Nat.le_sub_one_of_lt hlt)]

/-- A key that is put has its entry behind those of the other keys, and as many entries are kept,
from the end, as the cache may hold. -/
theorem entries_put (cache : Lru α) (key : String) (value : α) :
    (cache.put key value).entries.entries
      = (cache.entries.others key ++ [(key, value)]).rtake cache.capacity.toNat := by
  unfold put
  split
  case h_1 index hindex =>
    -- the entry is moved to the end and its value replaced there
    have hkey : key ∈ cache.keys := by
      by_contra hnot
      rw [OrderedMap.indexOf?_eq_none_iff.mpr hnot] at hindex
      cases hindex
    have hroom : (cache.entries.others key ++ [(key, value)]).length ≤ cache.capacity.toNat := by
      rw [List.length_append]
      exact length_others_lt hkey
    rw [rtake_of_length_le hroom]
    change (cache.use index).entries.entries.modify (cache.use index).last _ = _
    rw [entries_use hindex, last_use hindex, modify_length_concat,
      OrderedMap.get_of_indexOf? hindex]
  case h_2 hindex =>
    -- room is made first, and the new entry takes the last place
    have hkey : key ∉ cache.entries.keys := OrderedMap.indexOf?_eq_none_iff.mp hindex
    have hpos : cache.capacity.toNat = cache.capacity.toNat - 1 + 1 :=
      (Nat.sub_add_cancel cache.capacity.count_pos).symm
    have hroom : key ∉ cache.makeRoom.keys := by
      rw [OrderedMap.keys, entries_makeRoom]
      intro hmem
      exact hkey (((List.drop_sublist _ _).map Prod.fst).subset hmem)
    change (cache.makeRoom.insert key value).entries = _
    rw [OrderedMap.entries_insert hroom, entries_makeRoom, OrderedMap.others_of_not_mem hkey,
      hpos, List.rtake_concat_succ, Nat.add_sub_cancel]

/-- Putting a value under a key that is present keeps the entries of all other keys. -/
theorem entries_put_of_mem {entry : String × α} (h : entry ∈ cache.entries.entries) (value : α) :
    (cache.put entry.1 value).entries.entries
      = cache.entries.others entry.1 ++ [(entry.1, value)] := by
  have hkey : entry.1 ∈ cache.keys := List.mem_map.mpr ⟨entry, h, rfl⟩
  rw [entries_put, rtake_of_length_le]
  rw [List.length_append]
  exact length_others_lt hkey

/-- Putting a value under an absent key adds an entry behind the others, of which as many are kept,
from the end, as the cache may hold. -/
theorem entries_put_of_not_mem (h : key ∉ cache.keys) (value : α) :
    (cache.put key value).entries.entries
      = (cache.entries.entries ++ [(key, value)]).rtake cache.capacity.toNat := by
  rw [entries_put, OrderedMap.others_of_not_mem h]

/-- The key that was put last is the most recently used one. -/
theorem getLast?_entries_put (cache : Lru α) (key : String) (value : α) :
    (cache.put key value).entries.entries.getLast? = some (key, value) := by
  have hpos : cache.capacity.toNat = cache.capacity.toNat - 1 + 1 :=
    (Nat.sub_add_cancel cache.capacity.count_pos).symm
  rw [entries_put, hpos, List.rtake_concat_succ, List.getLast?_concat]

/-- An entry that is there after a value has been put is the new one, or was there before. -/
theorem mem_entries_put {value : α} {entry : String × α}
    (h : entry ∈ (cache.put key value).entries.entries) :
    entry = (key, value) ∨ entry ∈ cache.entries.entries := by
  rw [entries_put] at h
  rcases List.mem_append.mp (List.mem_of_mem_drop h) with hother | hself
  · exact Or.inr (List.mem_of_mem_filter hother)
  · exact Or.inl (List.mem_singleton.mp hself)

@[simp] theorem capacity_put (cache : Lru α) (key : String) (value : α) :
    (cache.put key value).capacity = cache.capacity := by
  unfold put
  split <;> rfl

/-- A key without an entry is not found, and nothing changes. -/
theorem get_of_not_mem (h : key ∉ cache.keys) : cache.get key = (none, cache) := by
  have hindex : cache.entries.indexOf? key = none := OrderedMap.indexOf?_eq_none_iff.mpr h
  unfold get
  split
  case h_1 index hsome =>
    rw [hindex] at hsome
    cases hsome
  case h_2 => rfl

/-- Looking up a key that has a value gives the value, and is putting it again. -/
theorem get_of_mem {entry : String × α} (h : entry ∈ cache.entries.entries) :
    cache.get entry.1 = (some entry.2, cache.put entry.1 entry.2) := by
  obtain ⟨index, hindex, hentry⟩ := OrderedMap.exists_indexOf?_of_mem h
  have huse := entries_use hindex
  have hlast := last_use hindex
  rw [hentry] at huse
  have hput := entries_put_of_mem h entry.2
  unfold get
  split
  case h_2 hnone =>
    rw [hindex] at hnone
    cases hnone
  case h_1 other hother =>
    obtain rfl : index = other := Option.some.inj (hindex.symm.trans hother)
    have hvalue : (cache.use index).entries.entryAt? (cache.use index).last = some entry := by
      rw [OrderedMap.entryAt?, huse, hlast, List.getElem?_concat_length]
    -- putting the value that is there only moves the entry
    have hcache : cache.use index = cache.put entry.1 entry.2 := by
      refine Lru.ext ?_ (OrderedMap.ext ?_)
      · rw [capacity_put]
        rfl
      · rw [huse, hput]
    change (((cache.use index).entries.entryAt? (cache.use index).last).map Prod.snd, _) = _
    rw [hvalue, hcache, Option.map_some]

/-- Looking up a key gives the value of an entry and puts it again, or finds nothing and changes
nothing. -/
theorem get_cases (cache : Lru α) (key : String) :
    (∃ value, (key, value) ∈ cache.entries.entries
        ∧ cache.get key = (some value, cache.put key value))
      ∨ key ∉ cache.keys ∧ cache.get key = (none, cache) := by
  by_cases hkey : key ∈ cache.keys
  · obtain ⟨⟨key, value⟩, hentry, rfl⟩ := List.mem_map.mp hkey
    exact Or.inl ⟨value, hentry, get_of_mem hentry⟩
  · exact Or.inr ⟨hkey, get_of_not_mem hkey⟩

end Lru

end Directive
