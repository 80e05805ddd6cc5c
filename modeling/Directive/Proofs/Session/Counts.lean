import Directive.Proofs.Session.Transparent
import Mathlib.Algebra.Ring.Nat

/-!
# Counts in step with the cache

Anything may be put under any key of the cache of a session, and taken away again. However that is
mixed with parsing, a directive is a hit if the cache holds its text at that moment and a miss if it
does not, and nothing but parsing is counted. Main facts:

* `Session.reused_of_holds`, `Session.scanned_of_not_holds`: what parsing a directive does.
* `Session.counts_serve`: no other request is counted.
* `Session.counted_after`: hits and misses together are the directives parsed.
* `Session.counts_in_step`: all of this at every point of a session.
-/

namespace Directive

/-! ## Caches -/

namespace Cache

/-- The entries from the least to the most recently used one, none if nothing is kept. -/
def entries : Cache → List (String × Descriptor)
  | lru cache => cache.entries.entries
  | off => []

/-- How many entries there may be, if any are kept. -/
def capacity? (cache : Cache) : Option Capacity :=
  cache.lru?.map Lru.capacity

theorem exists_lru_of_capacity? {cache : Cache} {capacity : Capacity}
    (h : cache.capacity? = some capacity) :
    ∃ entries : Lru Descriptor, cache = lru entries ∧ entries.capacity = capacity := by
  cases cache with
  | off => cases h
  | lru entries => exact ⟨entries, rfl, Option.some.inj h⟩

@[simp] theorem capacity?_put (cache : Cache) (key : String) (value : Descriptor) :
    (cache.put key value).capacity? = cache.capacity? := by
  cases cache with
  | off => rfl
  | lru entries => exact congrArg some (entries.capacity_put key value)

@[simp] theorem capacity?_clear (cache : Cache) : cache.clear.capacity? = cache.capacity? := by
  cases cache <;> rfl

/-- Looking a key up leaves as much room as there was. -/
@[simp] theorem capacity?_get (cache : Cache) (key : String) :
    (cache.get key).2.capacity? = cache.capacity? := by
  rcases cache.get_cases key with ⟨descriptor, -, hget⟩ | ⟨-, hget⟩
  · rw [hget, capacity?_put]
  · rw [hget]

end Cache

/-! ## Requests -/

namespace Request

/-- How many directives are to be parsed. -/
def parses (requests : List Request) : Nat :=
  (requests.filterMap directive?).length

theorem parses_concat (requests : List Request) (request : Request) :
    parses (requests ++ [request]) = parses requests + request.directive?.toList.length := by
  rw [parses, List.filterMap_append, List.length_append, parses]
  cases hdirective : request.directive? <;> simp [hdirective]

theorem parses_le_length (requests : List Request) : parses requests ≤ requests.length :=
  List.length_filterMap_le _ _

end Request

/-! ## Sessions -/

namespace Session

variable {session : Session} {capacity : Capacity} {raw : String} {descriptor : Descriptor}

/-- A directive has been answered with a descriptor that the cache held under its text. -/
structure Reused (session : Session) (raw : String) (descriptor : Descriptor)
    (served : Answer × Session) : Prop where
  /-- The descriptor is the answer, whatever descriptor it is. -/
  answer : served.1 = .parsed descriptor
  /-- There is one hit more. -/
  hits : served.2.hits.toNat = session.hits.toNat + 1
  /-- There is no miss more. -/
  misses : served.2.misses = session.misses
  /-- Every entry is kept. -/
  kept : served.2.cache.entries.Perm session.cache.entries
  /-- The directive is the most recently used key, and the others keep their order. -/
  recent : served.2.cache.entries
    = session.cache.entries.filter (fun entry => entry.1 ≠ raw) ++ [(raw, descriptor)]

/-- A directive whose text the cache held nothing under has been scanned. -/
structure Scanned (session : Session) (capacity : Capacity) (raw : String)
    (served : Answer × Session) : Prop where
  /-- The descriptor of the directive is the answer. -/
  answer : served.1 = .parsed (Descriptor.parse raw)
  /-- There is no hit more. -/
  hits : served.2.hits = session.hits
  /-- There is one miss more. -/
  misses : served.2.misses.toNat = session.misses.toNat + 1
  /-- The directive is the most recently used key, and its descriptor is stored. -/
  recent : served.2.cache.entries.getLast? = some (raw, Descriptor.parse raw)
  /-- It stands behind the entries that there is still room for. -/
  stored : served.2.cache.entries
    = (session.cache.entries ++ [(raw, Descriptor.parse raw)]).rtake capacity.toNat

/-- Counting one more does not start from zero again as long as there are few enough. -/
theorem toNat_add_one {count : UInt64} (h : count.toNat + 1 < 2 ^ 64) :
    (count + 1).toNat = count.toNat + 1 := by
  rw [UInt64.toNat_add]
  exact Nat.mod_eq_of_lt h

/-- A directive is answered with what the cache holds under its text. -/
theorem reused_of_holds (hheld : session.cache.Holds raw descriptor)
    (hroom : session.hits.toNat + 1 < 2 ^ 64) :
    session.Reused raw descriptor (session.serve (.parse raw)) := by
  obtain ⟨cache, hits, misses⟩ := session
  cases cache with
  | off => exact hheld.elim
  | lru entries =>
    -- looking the text up puts the same descriptor again, which moves its entry to the end
    have hget := Lru.get_of_mem hheld
    have hput := Lru.entries_put_of_mem hheld descriptor
    have hserve : serve ⟨.lru entries, hits, misses⟩ (.parse raw)
        = (.parsed descriptor, ⟨.lru (entries.put raw descriptor), hits + 1, misses⟩) := by
      simp [serve, parse, Cache.get, hget]
    rw [hserve]
    refine ⟨rfl, toNat_add_one hroom, rfl, ?_, hput⟩
    change (entries.put raw descriptor).entries.entries.Perm entries.entries.entries
    rw [hput]
    exact OrderedMap.others_perm hheld

/-- A directive is scanned if the cache holds nothing under its text. -/
theorem scanned_of_not_holds (hcapacity : session.cache.capacity? = some capacity)
    (hnone : ∀ descriptor, ¬session.cache.Holds raw descriptor)
    (hroom : session.misses.toNat + 1 < 2 ^ 64) :
    session.Scanned capacity raw (session.serve (.parse raw)) := by
  obtain ⟨cache, hits, misses⟩ := session
  obtain ⟨entries, rfl, rfl⟩ := Cache.exists_lru_of_capacity? hcapacity
  have hkey : raw ∉ entries.keys := fun hkey => (Cache.exists_holds_iff.mpr hkey).elim hnone
  have hget := Lru.get_of_not_mem hkey
  have hserve : serve ⟨.lru entries, hits, misses⟩ (.parse raw)
      = (.parsed (Descriptor.parse raw),
          ⟨.lru (entries.put raw (Descriptor.parse raw)), hits, misses + 1⟩) := by
    simp [serve, parse, Cache.get, Cache.put, hget]
  -- the entry is the last one at once, and may have cost the entry that was used least recently
  rw [hserve]
  exact ⟨rfl, rfl, toNat_add_one hroom, Lru.getLast?_entries_put entries raw _,
    Lru.entries_put_of_not_mem hkey _⟩

/-- Only parsing is counted. -/
theorem counts_serve (session : Session) {request : Request} (h : request.directive? = none) :
    (session.serve request).2.hits = session.hits
      ∧ (session.serve request).2.misses = session.misses := by
  cases request with
  | parse raw => cases h
  | _ => exact ⟨rfl, rfl⟩

/-- Serving a request leaves as much room in the cache as there was. -/
theorem capacity?_serve (session : Session) (request : Request) :
    (session.serve request).2.cache.capacity? = session.cache.capacity? := by
  cases request with
  | parse raw =>
    change (session.parse raw).2.cache.capacity? = session.cache.capacity?
    rcases session.parse_cases raw with ⟨descriptor, -, hparse⟩ | ⟨-, hparse⟩ <;>
      rw [hparse, Cache.capacity?_put]
  | get key => exact session.cache.capacity?_get key
  | put key descriptor => exact session.cache.capacity?_put key descriptor
  | clear => exact session.cache.capacity?_clear
  | _ => rfl

theorem after_concat (session : Session) (requests : List Request) (request : Request) :
    session.after (requests ++ [request]) = ((session.after requests).serve request).2 := by
  induction requests generalizing session with
  | nil => rfl
  | cons first requests ih => exact ih (session.serve first).2

/-- So do several requests. -/
theorem capacity?_after (session : Session) (requests : List Request) :
    (session.after requests).cache.capacity? = session.cache.capacity? := by
  induction requests using List.reverseRecOn with
  | nil => rfl
  | append_singleton requests request ih => rw [after_concat, capacity?_serve, ih]

/-- One request adds the directive that it parses to the hits or to the misses. -/
theorem counted_serve (hcapacity : session.cache.capacity? = some capacity)
    (hroom : session.hits.toNat + session.misses.toNat + 1 < 2 ^ 64) (request : Request) :
    (session.serve request).2.hits.toNat + (session.serve request).2.misses.toNat
      = session.hits.toNat + session.misses.toNat + request.directive?.toList.length := by
  cases hdirective : request.directive? with
  | none =>
    obtain ⟨hhits, hmisses⟩ := counts_serve session hdirective
    rw [hhits, hmisses]
    rfl
  | some raw =>
    obtain rfl : request = .parse raw := by
      cases request <;> cases hdirective
      rfl
    by_cases hheld : ∃ descriptor, session.cache.Holds raw descriptor
    · obtain ⟨descriptor, hheld⟩ := hheld
      have hreused := reused_of_holds hheld (by omega)
      rw [hreused.hits, hreused.misses, Option.toList_some, List.length_singleton]
      omega
    · have hscanned := scanned_of_not_holds hcapacity (not_exists.mp hheld) (by omega)
      rw [hscanned.hits, hscanned.misses]
      rfl

/-- The hits and misses of a session are the directives that it has parsed. -/
theorem counted_after (cache : Lru Descriptor) (requests : List Request)
    (hlength : requests.length < 2 ^ 64) :
    ((start (.lru cache)).after requests).hits.toNat
        + ((start (.lru cache)).after requests).misses.toNat
      = Request.parses requests := by
  induction requests using List.reverseRecOn with
  | nil => rfl
  | append_singleton requests request ih =>
    rw [List.length_append, List.length_singleton] at hlength
    -- no more directives than requests have been counted, so that there is room for one more
    have hbefore := ih (by omega)
    have hle := Request.parses_le_length requests
    have hcapacity := capacity?_after (start (.lru cache)) requests
    rw [after_concat, Request.parses_concat, ← hbefore]
    exact counted_serve hcapacity (by omega) request

/-- Counts and entries stay in step at every point of a session whose cache may have held anything
at the start. A directive that is present is answered with the descriptor that is stored, counts as
a hit and costs no entry; one that is absent is scanned, counts as a miss and is stored; either way
it is then the most recently used key. Nothing else is counted, so that hits and misses together are
the directives parsed so far. -/
theorem counts_in_step (cache : Lru Descriptor) (requests : List Request)
    (hlength : requests.length < 2 ^ 64) :
    (∀ before request, before ++ [request] <+: requests →
      let session := (start (.lru cache)).after before
      let served := session.serve request
      (∀ raw, request = .parse raw →
        (∀ descriptor, session.cache.Holds raw descriptor → session.Reused raw descriptor served)
          ∧ ((∀ descriptor, ¬session.cache.Holds raw descriptor) →
            session.Scanned cache.capacity raw served))
        ∧ (request.directive? = none →
          served.2.hits = session.hits ∧ served.2.misses = session.misses))
      ∧ ∀ before, before <+: requests →
        let session := (start (.lru cache)).after before
        session.hits.toNat + session.misses.toNat = Request.parses before := by
  refine ⟨fun before request hbefore => ?_, fun before hbefore => ?_⟩
  · have hle := hbefore.length_le
    rw [List.length_append, List.length_singleton] at hle
    -- the counts are those of the requests before, so that one more does not overflow
    have hcounted := counted_after cache before (by omega)
    have hparses := Request.parses_le_length before
    refine ⟨?_, counts_serve _⟩
    rintro raw rfl
    refine ⟨fun descriptor hheld => reused_of_holds hheld (by omega), fun hnone => ?_⟩
    exact scanned_of_not_holds (capacity?_after _ before) hnone (by omega)
  · exact counted_after cache before (Nat.lt_of_le_of_lt hbefore.length_le hlength)

/-- Requests that put a descriptor under a directive that is not its own, have it taken out by
another directive, and clear the cache. -/
def planted : List Request :=
  [.put "a | f" (.new "x"), .parse "a | f", .parse "b", .clear, .parse "b"]

/-- A session with room for one descriptor after the first of these requests. -/
def afterPlanted (count : Nat) : Session :=
  (start (.lru (.empty ⟨1, by decide⟩))).after (planted.take count)

theorem counts_in_step_planted :
    planted.length < 2 ^ 64
      ∧ ((afterPlanted 1).cache.Holds "a | f" (.new "x")
        ∧ (afterPlanted 1).Reused "a | f" (.new "x") ((afterPlanted 1).serve (.parse "a | f")))
      ∧ ((∀ descriptor, ¬(afterPlanted 2).cache.Holds "b" descriptor)
        ∧ (afterPlanted 2).Scanned ⟨1, by decide⟩ "b" ((afterPlanted 2).serve (.parse "b")))
      ∧ ((afterPlanted 3).serve .clear).2.hits = (afterPlanted 3).hits
      ∧ (afterPlanted 5).hits.toNat + (afterPlanted 5).misses.toNat = 3 := by
  have hlength : planted.length < 2 ^ 64 := by decide
  obtain ⟨hsteps, hcounted⟩ := counts_in_step (.empty ⟨1, by decide⟩) planted hlength
  have hheld : (afterPlanted 1).cache.Holds "a | f" (.new "x") := by
    change _ ∈ (Lru.entries _).entries
    decide
  have hnone : ∀ descriptor, ¬(afterPlanted 2).cache.Holds "b" descriptor := by
    refine not_exists.mp (mt Cache.exists_holds_iff.mp ?_)
    decide
  refine ⟨hlength, ⟨hheld, ?_⟩, ⟨hnone, ?_⟩, ?_, hcounted planted List.prefix_rfl⟩
  · exact ((hsteps (planted.take 1) _ (planted.take_prefix 2)).1 "a | f" rfl).1 _ hheld
  · exact ((hsteps (planted.take 2) _ (planted.take_prefix 3)).1 "b" rfl).2 hnone
  · exact ((hsteps (planted.take 3) _ (planted.take_prefix 4)).2 rfl).1

end Session

end Directive
