import Directive.Proofs.Lru.History
import Directive.Proofs.Session.Steps
import Mathlib.Algebra.Ring.Nat
import Mathlib.Data.Finset.Card
import Mathlib.Data.Finset.Dedup

/-!
# Hits and misses

When a session answers from its cache can be told from the directives alone. A directive is a hit
if it was parsed before and fewer different directives than the cache has room for were parsed since
the last time. Main facts:

* `isReuse_iff_mem`: these directives are the most recent ones.
* `Session.HasParsed.parse`: what parsing one more directive does to the cache and the counts.
* `Session.hits_by_reuse`: the hits and misses of a session.
-/

namespace Directive

/-! ## Directives that come back -/

/-- A directive comes back after some others: it is among them, and fewer than `room` different ones
follow the last time that it is. -/
def IsReuse (before : List String) (raw : String) (room : Nat) : Prop :=
  ∃ earlier between, before = earlier ++ raw :: between ∧ raw ∉ between
    ∧ between.toFinset.card < room

section Lists

variable {α : Type}

/-- An item of a list is last met somewhere. -/
theorem exists_eq_append_cons_not_mem {items : List α} {item : α} (h : item ∈ items) :
    ∃ earlier later, items = earlier ++ item :: later ∧ item ∉ later := by
  obtain ⟨later, earlier, hreverse, hlater⟩ :=
    List.eq_append_cons_of_mem (List.mem_reverse.mpr h)
  refine ⟨earlier.reverse, later.reverse, ?_, by simpa using hlater⟩
  rw [← List.reverse_reverse items, hreverse]
  simp

variable [DecidableEq α]

/-- An item is among the most recent ones if few enough different items follow it. -/
theorem mem_rtake_dedup_iff {earlier later : List α} {item : α} (h : item ∉ later)
    {count : Nat} :
    item ∈ (earlier ++ item :: later).dedup.rtake count ↔ later.toFinset.card < count := by
  -- without repetitions the items that follow it stand behind it, each once
  obtain ⟨front, hfront⟩ := List.suffix_union_right earlier (item :: later.dedup)
  rw [List.dedup_append, List.dedup_cons_of_notMem h, ← hfront, List.card_toFinset]
  have hnot : item ∉ later.dedup := mt List.mem_dedup.mp h
  rcases Nat.lt_or_ge later.dedup.length count with hfew | hmany
  · have hdrop : (front ++ item :: later.dedup).length - count ≤ front.length := by
      rw [List.length_append, List.length_cons]
      omega
    rw [List.rtake, List.drop_append_of_le_length hdrop]
    simp [hfew]
  · rw [List.append_cons, rtake_append hmany]
    refine iff_of_false (fun hmem => hnot (List.mem_of_mem_drop hmem)) ?_
    exact Nat.not_lt.mpr hmany

end Lists

/-- The directives that may come back are the most recent ones. -/
theorem isReuse_iff_mem {before : List String} {raw : String} {room : Nat} :
    IsReuse before raw room ↔ raw ∈ before.dedup.rtake room := by
  constructor
  · rintro ⟨earlier, between, rfl, hlast, hcard⟩
    exact (mem_rtake_dedup_iff hlast).mpr hcard
  · intro hmem
    have hbefore : raw ∈ before := List.mem_dedup.mp (List.mem_of_mem_drop hmem)
    obtain ⟨earlier, between, rfl, hlast⟩ := exists_eq_append_cons_not_mem hbefore
    exact ⟨earlier, between, rfl, hlast, (mem_rtake_dedup_iff hlast).mp hmem⟩

instance (before : List String) (raw : String) (room : Nat) : Decidable (IsReuse before raw room) :=
  decidable_of_iff (raw ∈ before.dedup.rtake room) isReuse_iff_mem.symm

/-- More room keeps what less room keeps. -/
theorem IsReuse.mono {before : List String} {raw : String} {room more : Nat}
    (h : IsReuse before raw room) (hle : room ≤ more) : IsReuse before raw more := by
  obtain ⟨earlier, between, hbefore, hlast, hcard⟩ := h
  exact ⟨earlier, between, hbefore, hlast, Nat.lt_of_lt_of_le hcard hle⟩

/-- With room for all directives, one that is among them comes back. -/
theorem isReuse_iff_mem_of_card_le {before : List String} {raw : String} {room : Nat}
    (h : before.toFinset.card ≤ room) : IsReuse before raw room ↔ raw ∈ before := by
  rw [isReuse_iff_mem, rtake_of_length_le, List.mem_dedup]
  rwa [← List.card_toFinset]

/-- The directive at a place comes back after those before it. -/
def IsReuseAt (raws : List String) (room i : Nat) : Prop :=
  ∃ raw ∈ raws[i]?, IsReuse (raws.take i) raw room

instance (raws : List String) (room i : Nat) : Decidable (IsReuseAt raws room i) :=
  inferInstanceAs (Decidable (∃ raw ∈ raws[i]?, IsReuse (raws.take i) raw room))

/-- What comes back at a place does not depend on what follows. -/
theorem isReuseAt_append {raws more : List String} {room i : Nat} (h : i < raws.length) :
    IsReuseAt (raws ++ more) room i ↔ IsReuseAt raws room i := by
  unfold IsReuseAt
  rw [List.getElem?_append_left h, List.take_append_of_le_length (Nat.le_of_lt h)]

/-- The last directive comes back if it does after all others. -/
theorem isReuseAt_length {raws : List String} {raw : String} {room : Nat} :
    IsReuseAt (raws ++ [raw]) room raws.length ↔ IsReuse raws raw room := by
  simp [IsReuseAt]

/-- How many of some directives come back. -/
def reuses (raws : List String) (room : Nat) : Nat :=
  (List.range raws.length).countP fun i => IsReuseAt raws room i

/-- With one more directive at the end, it is one more if it comes back. -/
theorem reuses_concat (raws : List String) (raw : String) (room : Nat) :
    reuses (raws ++ [raw]) room = reuses raws room + if IsReuse raws raw room then 1 else 0 := by
  have hbefore : (List.range raws.length).countP (fun i => IsReuseAt (raws ++ [raw]) room i)
      = reuses raws room := by
    refine List.countP_congr fun i hi => ?_
    rw [decide_eq_true_iff, decide_eq_true_iff, isReuseAt_append (List.mem_range.mp hi)]
  rw [reuses, List.length_append, List.length_singleton, List.range_succ, List.countP_append,
    hbefore, List.countP_singleton]
  simp only [decide_eq_true_iff, isReuseAt_length]

/-- More room makes no fewer directives come back. -/
theorem reuses_mono (raws : List String) {room more : Nat} (hle : room ≤ more) :
    reuses raws room ≤ reuses raws more := by
  refine List.countP_mono_left fun i _ h => ?_
  obtain ⟨raw, hraw, hreuse⟩ := of_decide_eq_true h
  exact decide_eq_true ⟨raw, hraw, hreuse.mono hle⟩

theorem reuses_le_length (raws : List String) (room : Nat) : reuses raws room ≤ raws.length := by
  calc
    reuses raws room ≤ (List.range raws.length).length := List.countP_le_length
    _ = raws.length := List.length_range

/-- With room for all of them, the directives that do not come back are the different ones. -/
theorem reuses_add_card {raws : List String} {room : Nat} (h : raws.toFinset.card ≤ room) :
    reuses raws room + raws.toFinset.card = raws.length := by
  induction raws using List.reverseRecOn with
  | nil => rfl
  | append_singleton raws raw ih =>
    have hsubset : raws.toFinset ⊆ (raws ++ [raw]).toFinset := by
      simp [List.toFinset_append]
    have hroom := (Finset.card_le_card hsubset).trans h
    have hcard : (raws ++ [raw]).toFinset.card
        = raws.toFinset.card + if raw ∈ raws then 0 else 1 := by
      rw [List.toFinset_append, List.toFinset_cons, List.toFinset_nil, insert_empty_eq,
        Finset.union_singleton, Finset.card_insert_eq_ite]
      split <;> simp_all
    have hbefore := ih hroom
    rw [reuses_concat, hcard, List.length_append, List.length_singleton,
      if_congr (isReuse_iff_mem_of_card_le hroom) rfl rfl]
    split <;> omega

/-! ## Sessions -/

namespace Session

/-- The directive is answered from the cache, and counted so. -/
def IsHit (session : Session) (raw : String) : Prop :=
  (session.parse raw).2.hits = session.hits + 1

/-- A new session with a cache of some capacity, once it has parsed some directives in order. -/
def afterParsing (capacity : Capacity) (raws : List String) : Session :=
  ((start (.empty (some capacity))).parseAll raws).2

/-- A session with a cache of some capacity has parsed some directives and done nothing else: the
cache holds the most recent ones with their descriptors, and the counts tell how many came back. -/
structure HasParsed (session : Session) (capacity : Capacity) (raws : List String) : Prop where
  /-- The cache holds the most recent directives with their descriptors. -/
  cache : ∃ entries : Lru Descriptor, session.cache = .lru entries ∧ entries.capacity = capacity
    ∧ entries.Recalls raws fun key => some (Descriptor.parse key)
  /-- The hits are the directives that came back. -/
  hits : session.hits = UInt64.ofNat (reuses raws capacity.toNat)
  /-- Every directive was counted. -/
  total : session.total = UInt64.ofNat raws.length

namespace HasParsed

variable {session : Session} {capacity : Capacity} {raws : List String}

theorem start (capacity : Capacity) : (start (.empty (some capacity))).HasParsed capacity [] where
  cache := ⟨.empty capacity, rfl, rfl, Lru.recalls_empty capacity _⟩
  hits := rfl
  total := rfl

/-- The cache holds a directive if the directive comes back. -/
theorem exists_holds_iff (h : session.HasParsed capacity raws) (raw : String) :
    (∃ descriptor, session.cache.Holds raw descriptor) ↔ IsReuse raws raw capacity.toNat := by
  obtain ⟨entries, hcache, rfl, hrecalls⟩ := h.cache
  rw [hcache, Cache.exists_holds_iff, hrecalls.keys, isReuse_iff_mem]
  rfl

/-- Putting the descriptor of a directive makes the directive the most recent one. -/
theorem recalls_put {entries : Lru Descriptor}
    (h : entries.Recalls raws fun key => some (Descriptor.parse key)) (raw : String) :
    (entries.put raw (Descriptor.parse raw)).Recalls (raws ++ [raw])
      fun key => some (Descriptor.parse key) := by
  have hput := h.put raw (Descriptor.parse raw)
  have hlatest : (fun key => if raw = key then some (Descriptor.parse raw)
      else some (Descriptor.parse key)) = fun key => some (Descriptor.parse key) := by
    ext1 key
    split
    case isTrue heq => rw [heq]
    case isFalse => rfl
  rwa [hlatest] at hput

/-- What parsing one more directive does: it is a hit if it comes back, and either way it is now the
most recent one. -/
theorem parse (h : session.HasParsed capacity raws) (raw : String) :
    (session.IsHit raw ↔ IsReuse raws raw capacity.toNat)
      ∧ (session.parse raw).2.HasParsed capacity (raws ++ [raw]) := by
  have hholds := h.exists_holds_iff raw
  obtain ⟨entries, hcache, hcapacity, hrecalls⟩ := h.cache
  have htotal : (session.parse raw).2.total = UInt64.ofNat (raws ++ [raw]).length := by
    rw [total_parse, h.total, List.length_append, UInt64.ofNat_add]
    rfl
  -- the cache is the same whether the descriptor was found in it or not
  have hnext : ∃ next : Lru Descriptor, session.cache.put raw (Descriptor.parse raw) = .lru next
      ∧ next.capacity = capacity
      ∧ next.Recalls (raws ++ [raw]) fun key => some (Descriptor.parse key) := by
    refine ⟨entries.put raw (Descriptor.parse raw), ?_, ?_, recalls_put hrecalls raw⟩
    · rw [hcache]
      rfl
    · rw [Lru.capacity_put, hcapacity]
  unfold IsHit
  rcases session.parse_cases raw with ⟨descriptor, hheld, hparse⟩ | ⟨hnone, hparse⟩
  · have hreuse := hholds.mp ⟨descriptor, hheld⟩
    have hdescriptor : descriptor = Descriptor.parse raw := by
      rw [hcache] at hheld
      exact (Option.some.inj (hrecalls.values _ hheld)).symm
    rw [hdescriptor] at hparse
    refine ⟨iff_of_true (by rw [hparse]) hreuse, ?_, ?_, htotal⟩
    · rwa [hparse]
    · rw [hparse, reuses_concat, if_pos hreuse, UInt64.ofNat_add, ← h.hits]
      rfl
  · have hreuse := mt hholds.mpr hnone
    -- a miss leaves the hits as they are
    refine ⟨iff_of_false ?_ hreuse, ?_, ?_, htotal⟩
    · rw [hparse]
      simp
    · rwa [hparse]
    · rw [hparse, reuses_concat, if_neg hreuse, Nat.add_zero]
      exact h.hits

end HasParsed

/-- After any directives a session has parsed these. -/
theorem hasParsed_afterParsing (capacity : Capacity) (raws : List String) :
    (afterParsing capacity raws).HasParsed capacity raws := by
  induction raws using List.reverseRecOn with
  | nil => exact HasParsed.start capacity
  | append_singleton raws raw ih =>
    unfold afterParsing
    rw [parseAll_concat]
    exact (ih.parse raw).2

/-- The hits of a session that has not parsed too many directives to count. -/
theorem HasParsed.toNat_hits {session : Session} {capacity : Capacity} {raws : List String}
    (h : session.HasParsed capacity raws) (hlength : raws.length < 2 ^ 64) :
    session.hits.toNat = reuses raws capacity.toNat := by
  have hle := reuses_le_length raws capacity.toNat
  rw [h.hits, UInt64.toNat_ofNat', Nat.mod_eq_of_lt (by omega)]

/-- The misses of a session that has not parsed too many directives to count. -/
theorem HasParsed.toNat_misses {session : Session} {capacity : Capacity} {raws : List String}
    (h : session.HasParsed capacity raws) (hlength : raws.length < 2 ^ 64) :
    session.misses.toNat = raws.length - reuses raws capacity.toNat := by
  have hle := reuses_le_length raws capacity.toNat
  have hmisses : session.misses = session.total - session.hits := by
    rw [Session.total, UInt64.add_comm, UInt64.add_sub_cancel]
  have htotal : session.total.toNat = raws.length := by
    rw [h.total, UInt64.toNat_ofNat', Nat.mod_eq_of_lt hlength]
  have hhits := h.toNat_hits hlength
  rw [hmisses, UInt64.toNat_sub_of_le, htotal, hhits]
  rw [UInt64.le_iff_toNat_le, htotal, hhits]
  exact hle

/-- Hits are governed by reuse: a new session over a cache of some capacity answers a directive from
the cache exactly if the directive was parsed before, and since the last time fewer different
directives were than there is room for. Its hits are those directives and its misses all others. So
with room for all of them every different directive is scanned once, and more room never means
fewer hits. -/
theorem hits_by_reuse (capacity : Capacity) (raws : List String) (hlength : raws.length < 2 ^ 64) :
    (∀ i (h : i < raws.length), (afterParsing capacity (raws.take i)).IsHit raws[i]
        ↔ IsReuse (raws.take i) raws[i] capacity.toNat)
      ∧ (afterParsing capacity raws).hits.toNat = reuses raws capacity.toNat
      ∧ (afterParsing capacity raws).misses.toNat = raws.length - reuses raws capacity.toNat
      ∧ (raws.toFinset.card ≤ capacity.toNat →
        (afterParsing capacity raws).misses.toNat = raws.toFinset.card)
      ∧ ∀ larger : Capacity, capacity.toNat ≤ larger.toNat →
        (afterParsing capacity raws).hits.toNat ≤ (afterParsing larger raws).hits.toNat := by
  have hparsed := hasParsed_afterParsing capacity raws
  refine ⟨fun i _ => ?_, hparsed.toNat_hits hlength, hparsed.toNat_misses hlength, ?_, ?_⟩
  · exact ((hasParsed_afterParsing capacity (raws.take i)).parse raws[i]).1
  · intro hroom
    have hcard := reuses_add_card hroom
    rw [hparsed.toNat_misses hlength]
    omega
  · intro larger hle
    rw [hparsed.toNat_hits hlength, (hasParsed_afterParsing larger raws).toNat_hits hlength]
    exact reuses_mono raws hle

/-- Directives of which one comes back early enough for two places, and another one too late. -/
def returning : List String :=
  ["a", "b", "a", "c", "b"]

theorem hits_by_reuse_returning :
    returning.length < 2 ^ 64
      ∧ ((afterParsing ⟨2, by decide⟩ ["a", "b"]).IsHit "a" ↔ IsReuse ["a", "b"] "a" 2)
      ∧ (afterParsing ⟨2, by decide⟩ returning).hits.toNat = 1
      ∧ (afterParsing ⟨2, by decide⟩ returning).misses.toNat = 4
      ∧ (afterParsing ⟨3, by decide⟩ returning).misses.toNat = returning.toFinset.card
      ∧ (afterParsing ⟨2, by decide⟩ returning).hits.toNat
        ≤ (afterParsing ⟨3, by decide⟩ returning).hits.toNat := by
  have hlength : returning.length < 2 ^ 64 := by decide
  have hreuses : reuses returning 2 = 1 := by decide +kernel
  have hroom : returning.toFinset.card ≤ 3 := by decide
  obtain ⟨hhit, hhits, hmisses, -, hlarger⟩ := hits_by_reuse ⟨2, by decide⟩ returning hlength
  obtain ⟨-, -, -, hall, -⟩ := hits_by_reuse ⟨3, by decide⟩ returning hlength
  refine ⟨hlength, hhit 2 (by decide), hhits.trans hreuses, ?_, hall hroom, hlarger _ (by decide)⟩
  rw [hmisses, show Capacity.toNat ⟨2, by decide⟩ = 2 from rfl, hreuses]
  rfl

end Session

end Directive
