import Directive.Proofs.Session.Steps

/-!
# Sessions whose cache cannot be seen

A session answers from its cache what it would otherwise scan anew. As long as nothing but the
descriptor of a directive is put under its text, the cache cannot be told from the descriptors: what
is in it, how much it may hold and whether there is one at all is no matter. Main facts:

* `Cache.Faithful.get_fst`, `Session.parse_of_faithful`: what a faithful cache has for a directive
  is its descriptor.
* `Session.faithful_serve`: each request leaves a faithful cache faithful.
* `Session.answers_transparent`: what a session answers to any requests that it starts with an empty
  cache.
-/

namespace Directive

/-! ## Caches -/

namespace Cache

/-- Whatever the cache holds under a key is the descriptor of the key. -/
def Faithful (cache : Cache) : Prop :=
  ∀ key descriptor, cache.Holds key descriptor → descriptor = Descriptor.parse key

theorem faithful_empty (capacity : Option Capacity) : (empty capacity).Faithful := by
  intro key descriptor h
  cases capacity with
  | none => exact h.elim
  | some capacity => cases h

namespace Faithful

variable {cache : Cache}

/-- Putting the descriptor of a key keeps a cache faithful. -/
theorem put (h : cache.Faithful) (key : String) :
    (cache.put key (Descriptor.parse key)).Faithful := by
  intro other descriptor hheld
  rcases holds_put hheld with ⟨rfl, rfl⟩ | hheld
  · rfl
  · exact h other descriptor hheld

/-- What a faithful cache has for a key is the descriptor of the key. -/
theorem get_fst (h : cache.Faithful) (key : String) :
    (cache.get key).1 = none ∨ (cache.get key).1 = some (Descriptor.parse key) := by
  rcases cache.get_cases key with ⟨descriptor, hheld, hget⟩ | ⟨-, hget⟩
  · obtain rfl := h key descriptor hheld
    exact Or.inr (by rw [hget])
  · exact Or.inl (by rw [hget])

/-- Looking a key up keeps a cache faithful. -/
theorem get_snd (h : cache.Faithful) (key : String) : (cache.get key).2.Faithful := by
  rcases cache.get_cases key with ⟨descriptor, hheld, hget⟩ | ⟨-, hget⟩
  · obtain rfl := h key descriptor hheld
    rw [hget]
    exact h.put key
  · rwa [hget]

/-- Without entries a cache is faithful. -/
theorem clear (cache : Cache) : cache.clear.Faithful := by
  cases cache with
  | off => exact faithful_empty none
  | lru entries => exact faithful_empty (some entries.capacity)

end Faithful

end Cache

/-! ## Requests -/

namespace Request

/-- A request to put something under a key puts the descriptor of the key. -/
def IsFaithful : Request → Prop
  | put key descriptor => descriptor = Descriptor.parse key
  | _ => True

/-- The directive that a request asks to parse. -/
def directive? : Request → Option String
  | parse raw => some raw
  | _ => none

/-- What may be answered to a request if no cache can be seen: the descriptor of the directive to
parse, and nothing else than its descriptor for a key that is looked up. -/
def Admits : Request → Answer → Prop
  | parse raw, answer => answer = .parsed (Descriptor.parse raw)
  | get key, answer => answer = .found none ∨ answer = .found (some (Descriptor.parse key))
  | _, _ => True

end Request

/-- The descriptor that an answer gives for a directive that was to be parsed. -/
def Answer.descriptor? : Answer → Option Descriptor
  | parsed descriptor => some descriptor
  | _ => none

/-! ## Sessions -/

namespace Session

variable {session : Session}

/-- With a faithful cache a directive has its own descriptor, and the cache stays faithful. -/
theorem parse_of_faithful (h : session.cache.Faithful) (raw : String) :
    (session.parse raw).1 = Descriptor.parse raw ∧ (session.parse raw).2.cache.Faithful := by
  rcases session.parse_cases raw with ⟨descriptor, hheld, hparse⟩ | ⟨-, hparse⟩
  · obtain rfl := h raw descriptor hheld
    rw [hparse]
    exact ⟨rfl, h.put raw⟩
  · rw [hparse]
    exact ⟨rfl, h.put raw⟩

/-- A session with a faithful cache answers a request as if there were no cache. -/
theorem admits_serve (h : session.cache.Faithful) (request : Request) :
    request.Admits (session.serve request).1 := by
  cases request with
  | parse raw => exact congrArg Answer.parsed (parse_of_faithful h raw).1
  | get key =>
    rcases h.get_fst key with hnone | hsome
    · exact Or.inl (congrArg Answer.found hnone)
    · exact Or.inr (congrArg Answer.found hsome)
  | _ => trivial

/-- Each faithful request keeps the cache faithful. -/
theorem faithful_serve (h : session.cache.Faithful) {request : Request}
    (hrequest : request.IsFaithful) : (session.serve request).2.cache.Faithful := by
  cases request with
  | parse raw => exact (parse_of_faithful h raw).2
  | get key => exact h.get_snd key
  | put key descriptor =>
    obtain rfl : descriptor = Descriptor.parse key := hrequest
    exact h.put key
  | contains key => exact h
  | keys => exact h
  | size => exact h
  | capacity => exact h
  | clear => exact Cache.Faithful.clear session.cache

/-- Only a request to parse a directive is answered with a descriptor for one, its own. -/
theorem descriptor?_serve (h : session.cache.Faithful) (request : Request) :
    (session.serve request).1.descriptor? = request.directive?.map Descriptor.parse := by
  cases request with
  | parse raw => exact congrArg some (parse_of_faithful h raw).1
  | _ => rfl

/-- The answers to several requests, in order. -/
def answers (session : Session) : List Request → List Answer
  | [] => []
  | request :: more => (session.serve request).1 :: (session.serve request).2.answers more

/-- A session with a faithful cache answers all faithful requests as if there were no cache. -/
theorem admits_answers (h : session.cache.Faithful) {requests : List Request}
    (hrequests : ∀ request ∈ requests, request.IsFaithful) :
    List.Forall₂ Request.Admits requests (session.answers requests) := by
  induction requests generalizing session with
  | nil => exact .nil
  | cons request more ih =>
    obtain ⟨hrequest, hmore⟩ := List.forall_mem_cons.mp hrequests
    -- the others find the cache as faithful as the first request did
    exact .cons (admits_serve h request) (ih (faithful_serve h hrequest) hmore)

/-- The descriptors that are answered are those of the directives to parse, in order. -/
theorem filterMap_answers (h : session.cache.Faithful) {requests : List Request}
    (hrequests : ∀ request ∈ requests, request.IsFaithful) :
    (session.answers requests).filterMap Answer.descriptor?
      = (requests.filterMap Request.directive?).map Descriptor.parse := by
  rw [List.map_filterMap]
  induction requests generalizing session with
  | nil => rfl
  | cons request more ih =>
    obtain ⟨hrequest, hmore⟩ := List.forall_mem_cons.mp hrequests
    rw [answers, List.filterMap_cons, List.filterMap_cons, descriptor?_serve h,
      ih (faithful_serve h hrequest) hmore]

/-- With a faithful cache several directives have their own descriptors. -/
theorem parseAll_fst (h : session.cache.Faithful) (raws : List String) :
    (session.parseAll raws).1 = raws.map Descriptor.parse := by
  induction raws generalizing session with
  | nil => rfl
  | cons raw more ih =>
    change (session.parse raw).1 :: ((session.parse raw).2.parseAll more).1 = _
    rw [(parse_of_faithful h raw).1, ih (parse_of_faithful h raw).2, List.map_cons]

/-- A session that starts with an empty cache, of whatever capacity or none at all, answers any
requests as if there were no cache, as long as only the descriptor of a key is put under the key: a
directive has its own descriptor, and so has a key that is found. The descriptors answered are known
from the directives alone. -/
theorem answers_transparent (capacity : Option Capacity) (requests : List Request)
    (hrequests : ∀ request ∈ requests, request.IsFaithful) :
    let answers := (start (.empty capacity)).answers requests
    List.Forall₂ Request.Admits requests answers
      ∧ answers.filterMap Answer.descriptor?
        = (requests.filterMap Request.directive?).map Descriptor.parse := by
  have hempty : (start (.empty capacity)).cache.Faithful := Cache.faithful_empty capacity
  exact ⟨admits_answers hempty hrequests, filterMap_answers hempty hrequests⟩

/-- Requests that a cache with room for one descriptor has to forget one for. -/
def evicting : List Request :=
  [.put "a | f" (Descriptor.parse "a | f"), .parse "a | f", .parse "b", .get "a | f",
    .parse "a | f", .keys, .clear, .parse "b"]

theorem answers_transparent_evicting :
    (∀ request ∈ evicting, request.IsFaithful) ∧
      let answers := (start (.empty (some ⟨1, by decide⟩))).answers evicting
      List.Forall₂ Request.Admits evicting answers
        ∧ answers.filterMap Answer.descriptor?
          = (evicting.filterMap Request.directive?).map Descriptor.parse := by
  have hrequests : ∀ request ∈ evicting, request.IsFaithful := by
    simp [evicting, Request.IsFaithful]
  exact ⟨hrequests, answers_transparent _ evicting hrequests⟩

end Session

end Directive
