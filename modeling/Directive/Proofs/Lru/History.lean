import Directive.Proofs.Lru.Entries
import Mathlib.Data.List.Dedup

/-!
# What a cache holds after a run

A run is any sequence of operations on a cache that was empty at first. What the cache holds is
told by the run alone: its keys are the most recently touched ones since it was last cleared, and
the value of a key is the one put last. Main facts:

* `Recalls.perform`: each operation preserves that.
* `recalls_after`: so does every run.
* `after_empty`: what a cache answers after a run.
-/

namespace Directive

/-! ## Lists without repetitions -/

section Lists

variable {α : Type}

/-- The last items of two lists in a row are those of the second, if it has enough of them. -/
theorem rtake_append {a b : List α} {count : Nat} (h : count ≤ b.length) :
    (a ++ b).rtake count = b.rtake count := by
  have hlength : (a ++ b).length - count = a.length + (b.length - count) := by
    rw [List.length_append]
    omega
  rw [List.rtake, hlength, List.drop_length_add_append, List.rtake]

variable [DecidableEq α]

/-- With one more item at the end, the item is moved there or added. -/
theorem dedup_concat (items : List α) (item : α) :
    (items ++ [item]).dedup = items.dedup.filter (· ≠ item) ++ [item] := by
  induction items with
  | nil => rfl
  | cons other items ih =>
    rw [List.cons_append, List.dedup_cons, List.dedup_cons, ih]
    by_cases hitem : other = item
    · -- the item itself counts where it is met last
      subst hitem
      rw [if_pos List.mem_concat_self]
      split <;> simp
    -- any other item is met last where it was met last before
    · by_cases hmem : other ∈ items <;> simp [hmem, hitem]

/-- The last of the items but one are found among the last items. -/
theorem rtake_filter_rtake {items : List α} (hnodup : items.Nodup) (item : α) (count : Nat) :
    ((items.rtake (count + 1)).filter (· ≠ item)).rtake count
      = (items.filter (· ≠ item)).rtake count := by
  rcases Nat.lt_or_ge (count + 1) items.length with hmany | hfew
  · have hsplit : items.rdrop (count + 1) ++ items.rtake (count + 1) = items :=
      List.take_append_drop _ _
    have hlength : (items.rtake (count + 1)).length = count + 1 := by
      rw [List.rtake, List.length_drop]
      omega
    have hlast : (items.rtake (count + 1)).Nodup := (List.drop_sublist _ _).nodup hnodup
    -- without repetitions at most one of the last items goes
    have hleft : count ≤ ((items.rtake (count + 1)).filter (· ≠ item)).length := by
      have hle : (items.rtake (count + 1)).length - 1
          ≤ ((items.rtake (count + 1)).erase item).length := List.le_length_erase
      rw [hlast.erase_eq_filter, hlength] at hle
      simpa [bne, beq_eq_decide] using hle
    -- so the items before the last ones do not count
    rw [← hsplit, List.filter_append, rtake_append hleft, hsplit]
  · rw [rtake_of_length_le hfew]

end Lists

namespace Lru

variable {α : Type}

/-! ## Runs -/

/-- What can be done with a cache. -/
inductive Operation (α : Type) where
  /-- Look a key up. -/
  | get (key : String)
  /-- Put a value under a key. -/
  | put (key : String) (value : α)
  /-- Say whether there is a value under a key. -/
  | contains (key : String)
  /-- Count the entries. -/
  | size
  /-- List the keys. -/
  | keys
  /-- Forget all entries. -/
  | clear

/-- What a cache answers. -/
inductive Answer (α : Type) where
  /-- The value under a key, if there is one. -/
  | found (value : Option α)
  /-- Whether there is a value under a key. -/
  | present (answer : Bool)
  /-- The number of entries. -/
  | size (count : Nat)
  /-- The keys from the least to the most recently used. -/
  | keys (keys : List String)
  /-- What was asked for has been done. -/
  | done

/-- The answer to an operation, and the cache after it. -/
def perform (cache : Lru α) : Operation α → Answer α × Lru α
  | .get key =>
    let (value, cache) := cache.get key
    (.found value, cache)
  | .put key value => (.done, cache.put key value)
  | .contains key => (.present (cache.contains key), cache)
  | .size => (.size cache.size, cache)
  | .keys => (.keys cache.keys, cache)
  | .clear => (.done, cache.clear)

/-- The cache after a run. -/
def after (cache : Lru α) : List (Operation α) → Lru α
  | [] => cache
  | operation :: more => (cache.perform operation).2.after more

/-! ## Histories -/

/-- The keys touched since the cache was last cleared, after one more operation: a key is touched
when it is put, and when looking it up gives a value. -/
def touch (cache : Lru α) (touched : List String) : Operation α → List String
  | .get key => if (cache.get key).1.isSome then touched ++ [key] else touched
  | .put key _ => touched ++ [key]
  | .contains _ => touched
  | .size => touched
  | .keys => touched
  | .clear => []

/-- The keys touched since the cache was last cleared, in order, after a run. -/
def touchedAfter (cache : Lru α) (touched : List String) : List (Operation α) → List String
  | [] => touched
  | operation :: more =>
    (cache.perform operation).2.touchedAfter (cache.touch touched operation) more

/-- The value that an operation puts under a key. -/
def Operation.putUnder? (key : String) : Operation α → Option α
  | put other value => if other = key then some value else none
  | _ => none

/-- The value put last under a key in a run. -/
def lastPut (operations : List (Operation α)) (key : String) : Option α :=
  (operations.filterMap (·.putUnder? key)).getLast?

/-- The most recently touched keys, each at its last touch, as many as there is room for. -/
def mostRecent (capacity : Capacity) (touched : List String) : List String :=
  touched.dedup.rtake capacity.toNat

theorem after_concat (cache : Lru α) (operations : List (Operation α)) (operation : Operation α) :
    cache.after (operations ++ [operation]) = ((cache.after operations).perform operation).2 := by
  induction operations generalizing cache with
  | nil => rfl
  | cons first operations ih => exact ih _

theorem touchedAfter_concat (cache : Lru α) (touched : List String)
    (operations : List (Operation α)) (operation : Operation α) :
    cache.touchedAfter touched (operations ++ [operation])
      = (cache.after operations).touch (cache.touchedAfter touched operations) operation := by
  induction operations generalizing cache touched with
  | nil => rfl
  | cons first operations ih => exact ih _ _

theorem lastPut_concat (operations : List (Operation α)) (operation : Operation α) (key : String) :
    lastPut (operations ++ [operation]) key
      = (operation.putUnder? key).or (lastPut operations key) := by
  rw [lastPut, List.filterMap_append]
  cases hput : operation.putUnder? key with
  | none => simp [hput, lastPut]
  | some value => simp [hput]

/-! ## What an operation preserves -/

/-- A cache holds what a history tells: the most recently touched keys with their latest values. -/
structure Recalls (cache : Lru α) (touched : List String) (latest : String → Option α) : Prop where
  /-- The keys are the most recently touched ones. -/
  keys : cache.keys = mostRecent cache.capacity touched
  /-- The value of an entry is the latest one. -/
  values : ∀ entry ∈ cache.entries.entries, latest entry.1 = some entry.2

variable {cache : Lru α} {touched : List String} {latest : String → Option α}

/-- Putting a value is a touch of its key. -/
theorem Recalls.put (h : cache.Recalls touched latest) (key : String) (value : α) :
    (cache.put key value).Recalls (touched ++ [key])
      fun other => if key = other then some value else latest other := by
  have hpos : cache.capacity.toNat = cache.capacity.toNat - 1 + 1 :=
    (Nat.sub_add_cancel cache.capacity.count_pos).symm
  refine ⟨?_, ?_⟩
  · calc
      (cache.put key value).keys
          = (cache.keys.filter (· ≠ key) ++ [key]).rtake cache.capacity.toNat := by
        have hkeys : (cache.entries.others key ++ [(key, value)]).map Prod.fst
            = cache.keys.filter (· ≠ key) ++ [key] := by
          rw [List.map_append, OrderedMap.map_fst_others]
          rfl
        rw [Lru.keys, OrderedMap.keys, entries_put, List.rtake, List.map_drop, hkeys, List.rtake,
          ← hkeys, List.length_map]
      _ = (touched.dedup.filter (· ≠ key) ++ [key]).rtake cache.capacity.toNat := by
        rw [h.keys, mostRecent, hpos, List.rtake_concat_succ, List.rtake_concat_succ,
          rtake_filter_rtake touched.nodup_dedup]
      _ = mostRecent (cache.put key value).capacity (touched ++ [key]) := by
        rw [mostRecent, dedup_concat, capacity_put]
  · intro entry hentry
    rw [entries_put] at hentry
    rcases List.mem_append.mp (List.mem_of_mem_drop hentry) with hother | hself
    · obtain ⟨hmem, hne⟩ := List.mem_filter.mp hother
      have hkey : key ≠ entry.1 := fun heq => by simp [heq] at hne
      rw [if_neg hkey]
      exact h.values entry hmem
    -- the new entry has the new value
    · obtain rfl := List.mem_singleton.mp hself
      exact if_pos rfl

/-- An empty cache holds what no history tells. -/
theorem recalls_empty (capacity : Capacity) (latest : String → Option α) :
    (empty capacity : Lru α).Recalls [] latest := by
  refine ⟨?_, fun entry hentry => by cases hentry⟩
  rw [mostRecent, List.dedup_nil, List.rtake_nil]
  rfl

/-- Looking up a key that has a value is a touch of the key. -/
theorem Recalls.get (h : cache.Recalls touched latest) {entry : String × α}
    (hentry : entry ∈ cache.entries.entries) :
    (cache.put entry.1 entry.2).Recalls (touched ++ [entry.1]) latest := by
  have hput := h.put entry.1 entry.2
  -- the value is put again that was the latest one already
  have hlatest : (fun other => if entry.1 = other then some entry.2 else latest other)
      = latest := by
    ext1 other
    by_cases hkey : entry.1 = other
    · rw [if_pos hkey, ← hkey, h.values entry hentry]
    · rw [if_neg hkey]
  rwa [hlatest] at hput

/-- Each operation preserves that the cache holds what the history tells. -/
theorem Recalls.perform (h : cache.Recalls touched latest) (operation : Operation α) :
    (cache.perform operation).2.Recalls (cache.touch touched operation)
      fun key => (operation.putUnder? key).or (latest key) := by
  cases operation with
  | get key =>
    by_cases hkey : key ∈ cache.keys
    · obtain ⟨entry, hentry, rfl⟩ := List.mem_map.mp hkey
      have hget := get_of_mem hentry
      simpa [Lru.perform, touch, hget, Operation.putUnder?] using h.get hentry
    · have hget := get_of_not_mem hkey
      simpa [Lru.perform, touch, hget, Operation.putUnder?] using h
  | put key value =>
    have hput := h.put key value
    have hlatest : (fun other => if key = other then some value else latest other)
        = fun other => ((Operation.put key value).putUnder? other).or (latest other) := by
      ext1 other
      by_cases hkey : key = other <;> simp [Operation.putUnder?, hkey]
    rwa [hlatest] at hput
  | contains key => simpa [Lru.perform, touch, Operation.putUnder?] using h
  | size => simpa [Lru.perform, touch, Operation.putUnder?] using h
  | keys => simpa [Lru.perform, touch, Operation.putUnder?] using h
  | clear => exact recalls_empty _ _

/-- After every run the cache holds what the history tells. -/
theorem recalls_after (capacity : Capacity) (operations : List (Operation α)) :
    ((empty capacity).after operations).Recalls
      ((empty capacity : Lru α).touchedAfter [] operations) (lastPut operations) := by
  induction operations using List.reverseRecOn with
  | nil => exact recalls_empty _ _
  | append_singleton operations operation ih =>
    have hstep := ih.perform operation
    have hlatest : lastPut (operations ++ [operation])
        = fun key => (operation.putUnder? key).or (lastPut operations key) := by
      ext1 key
      exact lastPut_concat operations operation key
    rwa [after_concat, touchedAfter_concat, hlatest]

/-- What looking a key up gives is the latest value of the key, if the cache holds the key. -/
theorem Recalls.get_fst (h : cache.Recalls touched latest) (key : String) :
    (cache.get key).1 = if key ∈ cache.keys then latest key else none := by
  by_cases hkey : key ∈ cache.keys
  · rw [if_pos hkey]
    obtain ⟨entry, hentry, rfl⟩ := List.mem_map.mp hkey
    rw [get_of_mem hentry, h.values entry hentry]
  · rw [if_neg hkey, get_of_not_mem hkey]

/-- A key is found if the cache holds it. -/
theorem isSome_get_iff {key : String} : (cache.get key).1.isSome ↔ key ∈ cache.keys := by
  by_cases hkey : key ∈ cache.keys
  · obtain ⟨entry, hentry, rfl⟩ := List.mem_map.mp hkey
    simpa [get_of_mem hentry] using hkey
  · simp [get_of_not_mem hkey, hkey]

theorem capacity_perform (cache : Lru α) (operation : Operation α) :
    (cache.perform operation).2.capacity = cache.capacity := by
  cases operation with
  | get key =>
    change (cache.get key).2.capacity = cache.capacity
    unfold get
    split <;> rfl
  | put key value => exact capacity_put cache key value
  | contains key => rfl
  | size => rfl
  | keys => rfl
  | clear => rfl

theorem capacity_after (cache : Lru α) (operations : List (Operation α)) :
    (cache.after operations).capacity = cache.capacity := by
  induction operations generalizing cache with
  | nil => rfl
  | cons operation operations ih => rw [after, ih, capacity_perform]

/-- What a cache answers after any run that it starts without entries: its keys are the most
recently touched ones since it was last cleared, from the oldest touch to the newest, looking a key
up gives the value put last under it if it is one of them and nothing if not, and the questions
about keys change nothing. -/
theorem after_empty (capacity : Capacity) (operations : List (Operation α)) :
    let cache := (empty capacity).after operations
    let recent := mostRecent capacity ((empty capacity : Lru α).touchedAfter [] operations)
    cache.keys = recent
      ∧ (∀ key, (cache.get key).1 = if key ∈ recent then lastPut operations key else none)
      ∧ (∀ key, (cache.get key).1.isSome ↔ key ∈ recent)
      ∧ (∀ key, cache.contains key = true ↔ key ∈ recent)
      ∧ cache.size = recent.length
      ∧ (∀ key, (cache.perform (.contains key)).2 = cache)
      ∧ (cache.perform .size).2 = cache
      ∧ (cache.perform .keys).2 = cache := by
  intro cache recent
  have hrecalls := recalls_after capacity operations
  have hkeys : cache.keys = recent := by
    have hcapacity : cache.capacity = capacity := capacity_after _ operations
    rw [hrecalls.keys, hcapacity]
  refine ⟨hkeys, fun key => ?_, fun key => ?_, fun key => ?_, ?_, fun key => rfl, rfl, rfl⟩
  · rw [← hkeys]
    exact hrecalls.get_fst key
  · rw [← hkeys]
    exact isSome_get_iff
  · rw [← hkeys]
    exact OrderedMap.contains_iff
  · rw [← hkeys]
    exact (List.length_map _).symm

/-- With room for two keys, a key that is looked up outlives one that was put after it. -/
example :
    ((empty ⟨2, by decide⟩).after [.put "a" 1, .put "b" 2, .get "a", .get "x", .put "c" 3]).keys
      = ["a", "c"] := by
  decide

end Lru

end Directive
