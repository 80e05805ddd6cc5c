import Directive.OrderedMap

/-!
# Least recently used caches

A cache that holds at most `capacity` values under distinct keys. A key is used when it is put in
and when it is looked up and found; a new key takes the place of the one whose last use lies
furthest back once the cache is full.

The entries stand in the order of their last use: the first one is the next to go, and using a key
moves its entry to the last place.
-/

namespace Directive

/-- How many entries a cache may hold: at least one. -/
structure Capacity where
  /-- The number of entries. -/
  count : UInt64
  /-- There is room for an entry. -/
  count_pos : 0 < count.toNat

namespace Capacity

/-- The number of entries as a natural number. -/
def toNat (capacity : Capacity) : Nat :=
  capacity.count.toNat

/-- The capacity for a number of entries, unless the number is zero. -/
def ofCount? (count : UInt64) : Option Capacity :=
  if h : 0 < count.toNat then some ⟨count, h⟩ else none

/-- Room for a thousand entries. -/
def default : Capacity :=
  ⟨1000, by decide⟩

end Capacity

/-- A cache of values under keys, which forgets the least recently used key when it is full. -/
@[ext]
structure Lru (α : Type) where
  /-- How many entries the cache may hold. -/
  capacity : Capacity
  /-- The entries, the least recently used one first. -/
  entries : OrderedMap α
  /-- The cache holds no more than it may. -/
  size_le : entries.size ≤ capacity.toNat

namespace Lru

variable {α : Type}

/-- A cache without entries. -/
def empty (capacity : Capacity) : Lru α where
  capacity := capacity
  entries := .empty
  size_le := Nat.zero_le _

/-- Whether there is a value under the key. Looking at it is no use of the key. -/
def contains (cache : Lru α) (key : String) : Bool :=
  cache.entries.contains key

/-- The keys from the least to the most recently used. -/
def keys (cache : Lru α) : List String :=
  cache.entries.keys

/-- The number of entries. -/
def size (cache : Lru α) : Nat :=
  cache.entries.size

/-- The place of the most recently used entry. -/
def last (cache : Lru α) : Nat :=
  cache.entries.size - 1

/-- Moves an entry to the place of the most recently used one. -/
def use (cache : Lru α) (index : Fin cache.entries.entries.length) : Lru α where
  capacity := cache.capacity
  entries := cache.entries.move index ⟨cache.last, Nat.sub_one_lt_of_lt index.isLt⟩
  size_le := by
    rw [OrderedMap.size_move]
    exact cache.size_le

/-- The value under a key, and the cache after the key has been looked up. A key that is found is
now the most recently used one. -/
def get (cache : Lru α) (key : String) : Option α × Lru α :=
  match cache.entries.indexOf? key with
  | some index =>
    let used := cache.use index
    ((used.entries.entryAt? used.last).map Prod.snd, used)
  | none => (none, cache)

/-- Replaces the value of the most recently used entry. -/
def setLast (cache : Lru α) (value : α) : Lru α where
  capacity := cache.capacity
  entries := cache.entries.setAt cache.last value
  size_le := by
    rw [OrderedMap.size_setAt]
    exact cache.size_le

/-- Takes the least recently used entry out if the cache is full. -/
def makeRoom (cache : Lru α) : OrderedMap α :=
  if cache.capacity.toNat ≤ cache.size then cache.entries.removeAt 0 else cache.entries

theorem size_makeRoom_lt (cache : Lru α) : cache.makeRoom.size < cache.capacity.toNat := by
  have hpos : 0 < cache.capacity.toNat := cache.capacity.count_pos
  have hle := cache.size_le
  unfold makeRoom
  split
  case isTrue =>
    rw [OrderedMap.size_removeAt_zero]
    omega
  case isFalse hfull => exact Nat.lt_of_not_le hfull

/-- Puts a value under a key, in place of the value that is there. The key is now the most recently
used one, and the least recently used one goes if there is no room for both. -/
def put (cache : Lru α) (key : String) (value : α) : Lru α :=
  match cache.entries.indexOf? key with
  | some index => (cache.use index).setLast value
  | none =>
    { capacity := cache.capacity
      entries := cache.makeRoom.insert key value
      size_le := Nat.le_trans (OrderedMap.size_insert_le _ _ _) cache.size_makeRoom_lt }

/-- The cache without its entries. -/
def clear (cache : Lru α) : Lru α :=
  empty cache.capacity

end Lru

end Directive
