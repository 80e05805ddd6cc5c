import Directive.Session
import Directive.Proofs.Lru.Entries

/-!
# What a session does with its cache

A directive that the cache holds is answered from there, and put there again; any other one is
scanned, and put there. Main facts:

* `Cache.get_cases`: what looking a key up gives, and what it leaves.
* `Session.parse_cases`: the two ways in which a directive is parsed, with all that they change.
-/

namespace Directive

namespace Cache

/-- A cache without entries: one with some capacity, or none at all. -/
def empty : Option Capacity → Cache
  | some capacity => lru (.empty capacity)
  | none => off

/-- The cache holds a descriptor under a key. -/
def Holds (cache : Cache) (key : String) (descriptor : Descriptor) : Prop :=
  match cache with
  | lru entries => (key, descriptor) ∈ entries.entries.entries
  | off => False

/-- A cache of entries holds something under its keys. -/
theorem exists_holds_iff {entries : Lru Descriptor} {key : String} :
    (∃ descriptor, (lru entries).Holds key descriptor) ↔ key ∈ entries.keys := by
  constructor
  · rintro ⟨descriptor, hheld⟩
    exact List.mem_map.mpr ⟨_, hheld, rfl⟩
  · intro hkey
    obtain ⟨⟨key, descriptor⟩, hheld, rfl⟩ := List.mem_map.mp hkey
    exact ⟨descriptor, hheld⟩

/-- What the cache holds after a descriptor has been put was there before or is put. -/
theorem holds_put {cache : Cache} {key other : String} {descriptor value : Descriptor}
    (h : (cache.put key value).Holds other descriptor) :
    other = key ∧ descriptor = value ∨ cache.Holds other descriptor := by
  cases cache with
  | off => exact h.elim
  | lru entries =>
    rcases Lru.mem_entries_put h with hself | hother
    · exact Or.inl (Prod.ext_iff.mp hself)
    · exact Or.inr hother

/-- Looking up a key gives a descriptor that is held under it and puts it again, or finds nothing
and changes nothing. -/
theorem get_cases (cache : Cache) (key : String) :
    (∃ descriptor, cache.Holds key descriptor
        ∧ cache.get key = (some descriptor, cache.put key descriptor))
      ∨ (¬∃ descriptor, cache.Holds key descriptor) ∧ cache.get key = (none, cache) := by
  cases cache with
  | off => exact Or.inr ⟨fun ⟨_, hheld⟩ => hheld, rfl⟩
  | lru entries =>
    rcases entries.get_cases key with ⟨descriptor, hheld, hget⟩ | ⟨hkey, hget⟩
    · exact Or.inl ⟨descriptor, hheld, by simp [get, put, hget]⟩
    · exact Or.inr ⟨mt exists_holds_iff.mp hkey, by simp [get, hget]⟩

end Cache

namespace Session

/-- A directive whose text the cache holds a descriptor under is answered with that descriptor, and
counts as a hit. Any other directive is scanned, and counts as a miss. Either way the answer is then
put under the text. -/
theorem parse_cases (session : Session) (raw : String) :
    (∃ descriptor, session.cache.Holds raw descriptor
        ∧ session.parse raw
          = (descriptor, ⟨session.cache.put raw descriptor, session.hits + 1, session.misses⟩))
      ∨ (¬∃ descriptor, session.cache.Holds raw descriptor)
        ∧ session.parse raw
          = (Descriptor.parse raw, ⟨session.cache.put raw (Descriptor.parse raw), session.hits,
              session.misses + 1⟩) := by
  rcases session.cache.get_cases raw with ⟨descriptor, hheld, hget⟩ | ⟨hnone, hget⟩
  · refine Or.inl ⟨descriptor, hheld, ?_⟩
    simp [parse, hget]
  · refine Or.inr ⟨hnone, ?_⟩
    simp [parse, hget]

/-- Every directive that is parsed is counted. -/
theorem total_parse (session : Session) (raw : String) :
    (session.parse raw).2.total = session.total + 1 := by
  rcases session.parse_cases raw with ⟨descriptor, -, hparse⟩ | ⟨-, hparse⟩
  · rw [hparse, total, total, UInt64.add_assoc, UInt64.add_comm 1, ← UInt64.add_assoc]
  · rw [hparse, total, total, UInt64.add_assoc]

/-- Parsing one more directive at the end. -/
theorem parseAll_concat (session : Session) (raws : List String) (raw : String) :
    (session.parseAll (raws ++ [raw])).2 = ((session.parseAll raws).2.parse raw).2 := by
  induction raws generalizing session with
  | nil => rfl
  | cons first raws ih => exact ih (session.parse first).2

end Session

end Directive
