import Directive.Descriptor.Parser
import Directive.Lru

/-!
# Parsing sessions

A session parses directives one after another, keeps their descriptors in a cache under the text of
the directive, and counts how often the cache had the answer. Everything that can be asked of a
session is a `Request`, and `Session.serve` answers it.
-/

namespace Directive

/-- Where a session keeps descriptors. -/
inductive Cache where
  /-- In a cache that forgets the least recently used directive. -/
  | lru (entries : Lru Descriptor)
  /-- Nowhere. -/
  | off

namespace Cache

/-- The descriptor under a key, and the cache after the key has been looked up. -/
def get : Cache → String → Option Descriptor × Cache
  | lru entries, key =>
    let (descriptor, entries) := entries.get key
    (descriptor, lru entries)
  | off, _ => (none, off)

/-- Keeps a descriptor under a key. -/
def put : Cache → String → Descriptor → Cache
  | lru entries, key, value => lru (entries.put key value)
  | off, _, _ => off

/-- Forgets all descriptors. -/
def clear : Cache → Cache
  | lru entries => lru entries.clear
  | off => off

/-- The entries, if the cache keeps any. -/
def lru? : Cache → Option (Lru Descriptor)
  | lru entries => some entries
  | off => none

end Cache

/-- A cache with counts of the directives parsed. -/
structure Session where
  /-- The descriptors kept. -/
  cache : Cache
  /-- How many directives were answered from the cache. -/
  hits : UInt64
  /-- How many directives had to be scanned. -/
  misses : UInt64

namespace Session

/-- A session that has parsed nothing yet. -/
def start (cache : Cache) : Session :=
  ⟨cache, 0, 0⟩

/-- How many directives have been parsed. -/
def total (session : Session) : UInt64 :=
  session.hits + session.misses

/-- The descriptor of a directive: the one in the cache under its text, or else a new one, which is
then kept there. -/
def parse (session : Session) (raw : String) : Descriptor × Session :=
  match session.cache.get raw with
  | (some descriptor, cache) =>
    (descriptor, { session with cache, hits := session.hits + 1 })
  | (none, cache) =>
    let descriptor := Descriptor.parse raw
    (descriptor,
      { session with cache := cache.put raw descriptor, misses := session.misses + 1 })

/-- The descriptors of several directives, in order. Each directive is done before the next one is
looked up; workers that share the session may also take them on at once, which changes the counts
but not the descriptors. -/
def parseAll (session : Session) : List String → List Descriptor × Session
  | [] => ([], session)
  | raw :: more =>
    let (descriptor, session) := session.parse raw
    let (descriptors, session) := session.parseAll more
    (descriptor :: descriptors, session)

end Session

/-- What a session can be asked. -/
inductive Request where
  /-- Parse a directive. -/
  | parse (raw : String)
  /-- Look up what the cache holds under a key. -/
  | get (key : String)
  /-- Keep a descriptor under a key. -/
  | put (key : String) (descriptor : Descriptor)
  /-- Say whether the cache holds something under a key. -/
  | contains (key : String)
  /-- List the keys from the least to the most recently used. -/
  | keys
  /-- Count the entries. -/
  | size
  /-- Say how many entries there may be. -/
  | capacity
  /-- Forget all entries. -/
  | clear

/-- What a session answers. A question about entries has no answer where none are kept. -/
inductive Answer where
  /-- The descriptor of a directive. -/
  | parsed (descriptor : Descriptor)
  /-- The descriptor under a key, if there is one. -/
  | found (descriptor : Option Descriptor)
  /-- Whether there is a descriptor under a key. -/
  | present (answer : Option Bool)
  /-- The keys from the least to the most recently used. -/
  | keys (answer : Option (List String))
  /-- The number of entries. -/
  | size (answer : Option Nat)
  /-- The number of entries that there may be. -/
  | capacity (answer : Option Capacity)
  /-- What was asked for has been done. -/
  | done

namespace Session

/-- The answer to a request, and the session after it. -/
def serve (session : Session) : Request → Answer × Session
  | .parse raw =>
    let (descriptor, session) := session.parse raw
    (.parsed descriptor, session)
  | .get key =>
    let (descriptor, cache) := session.cache.get key
    (.found descriptor, { session with cache })
  | .put key descriptor => (.done, { session with cache := session.cache.put key descriptor })
  | .contains key => (.present (session.cache.lru?.map (·.contains key)), session)
  | .keys => (.keys (session.cache.lru?.map Lru.keys), session)
  | .size => (.size (session.cache.lru?.map Lru.size), session)
  | .capacity => (.capacity (session.cache.lru?.map Lru.capacity), session)
  | .clear => (.done, { session with cache := session.cache.clear })

/-- The session after several requests, answered in order. -/
def after (session : Session) : List Request → Session
  | [] => session
  | request :: more => (session.serve request).2.after more

end Session

end Directive
