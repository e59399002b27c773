import Etherchimp.Lib.KeyedMap

/-!
# The replay session cache

`replaySessionFor` takes the lock twice: once to look the path up, and, when that
misses, once more to insert the session it built in between. The build is slow
and unlocked, so other calls look up, build and insert while it goes on.

A session is known by its reader, and a reader by the call that opened it. What
else a session holds (the DNS cache, the positions, the value range) is built
once and not looked at here.
-/

namespace Etherchimp

/-- Bounds the per-file replay cache. -/
def maxReplaySessions : Nat := 2

structure ReplaySession where
  reader : Nat
  lastUsed : Int
deriving DecidableEq

/-- The order in which a range over the map visits its keys: any. -/
structure RangeOrder where
  visit : List String → List String
  perm : ∀ ks, (visit ks).Perm ks

/-- What `replayMu` guards, and the readers that were closed. -/
structure ReplayCache where
  replaySessions : KeyedMap String ReplaySession
  closed : List Nat

namespace ReplayCache

/-- The locked lookup: the session under the path, stamped. -/
def lookup (m : ReplayCache) (path : String) (now : Int) : Option Nat × ReplayCache :=
  match m.replaySessions.lookup path with
  | some s =>
      (some s.reader,
        { m with replaySessions := m.replaySessions.insert path { s with lastUsed := now } })
  | none => (none, m)

/-- The range that finds the least recently used session. -/
def oldestPath (sessions : KeyedMap String ReplaySession) (order : List String) : String × Int :=
  order.foldl (fun acc p =>
    match sessions.lookup p with
    | some sess => if acc.1 = "" ∨ sess.lastUsed < acc.2 then (p, sess.lastUsed) else acc
    | none => acc) ("", 0)

/-- Close the least recently used session and delete it. -/
def evictOldest (order : RangeOrder) (m : ReplayCache) : ReplayCache :=
  let path := (oldestPath m.replaySessions (order.visit m.replaySessions.keys)).1
  match m.replaySessions.lookup path with
  | some s => { replaySessions := m.replaySessions.erase path, closed := s.reader :: m.closed }
  | none => m

/-- Evict the least recently used sessions beyond the cap; every turn deletes one. -/
def evict (order : RangeOrder) : Nat → ReplayCache → ReplayCache
  | 0, m => m
  | n + 1, m =>
      if maxReplaySessions < m.replaySessions.keys.length then evict order n (m.evictOldest order)
      else m

/-- The locked insert of a session that was built, and the session that is returned. -/
def insert (m : ReplayCache) (order : RangeOrder) (path : String) (s : ReplaySession)
    (now : Int) : Nat × ReplayCache :=
  match m.replaySessions.lookup path with
  | some existing =>
      -- a concurrent call built the same session: keep that one, close the duplicate
      (existing.reader,
        { replaySessions := m.replaySessions.insert path { existing with lastUsed := now }
          closed := s.reader :: m.closed })
  | none =>
      let m := { m with replaySessions := m.replaySessions.insert path s }
      (s.reader, m.evict order m.replaySessions.keys.length)

end ReplayCache

/-! ## Concurrent calls -/

/-- A call between its two locked parts. -/
inductive ReplayCall where
  | missed (path : String)
  | built (path : String) (s : ReplaySession)
deriving DecidableEq

structure ReplayState where
  cache : ReplayCache
  /-- The calls under way. -/
  calls : KeyedMap Nat ReplayCall
  nextCall : Nat
  clock : Int
  /-- When a call was last handed the session with this reader. -/
  lastRequest : Nat → Int

/-- The steps of the calls, in any interleaving. -/
inductive ReplayStep where
  | lookup (path : String) (now : Int)
  /-- `NewReader` and the stamp after it; the rest of the build goes on until the insert. -/
  | build (call : Nat) (opens : Bool) (now : Int)
  | insert (call : Nat) (order : RangeOrder) (now : Int)

def ReplayStep.now : ReplayStep → Int
  | .lookup _ now => now
  | .build _ _ now => now
  | .insert _ _ now => now

namespace ReplayState

def start (now : Int) : ReplayState where
  cache := { replaySessions := ∅, closed := [] }
  calls := ∅
  nextCall := 0
  clock := now
  lastRequest := fun _ => now

/-- A call is handed a session. -/
def hand (st : ReplayState) (cache : ReplayCache) (reader : Nat) (now : Int) : ReplayState :=
  { st with
    cache := cache
    clock := now
    lastRequest := Function.update st.lastRequest reader now }

/-- A step, and the path and session of the call that returns in it. -/
def serve (st : ReplayState) : ReplayStep → Option (String × Nat) × ReplayState
  | .lookup path now =>
      match st.cache.lookup path now with
      | (some reader, cache) => (some (path, reader), st.hand cache reader now)
      | (none, _) =>
          (none, { st with
            calls := st.calls.insert st.nextCall (.missed path)
            nextCall := st.nextCall + 1
            clock := now })
  | .build call opens now =>
      match st.calls.lookup call with
      | some (.missed path) =>
          if opens then
            let s : ReplaySession := { reader := call, lastUsed := now }
            (none, { st with calls := st.calls.insert call (.built path s), clock := now })
          else
            -- the call returns the error
            (none, { st with calls := st.calls.erase call, clock := now })
      | _ => (none, { st with clock := now })
  | .insert call order now =>
      match st.calls.lookup call with
      | some (.built path s) =>
          let (reader, cache) := st.cache.insert order path s now
          (some (path, reader),
            { st.hand cache reader now with calls := st.calls.erase call })
      | _ => (none, { st with clock := now })

def step (st : ReplayState) (a : ReplayStep) : ReplayState := (st.serve a).2

def reply (st : ReplayState) (a : ReplayStep) : Option (String × Nat) := (st.serve a).1

/-- The file of the call's path opens. There is none under the empty path. -/
def fileOpens (st : ReplayState) : ReplayStep → Bool
  | .build call true _ => decide (st.calls.lookup call ≠ some (.missed ""))
  | _ => true

/-- The clock does not run back. -/
def Enabled (st : ReplayState) (a : ReplayStep) : Prop :=
  st.clock ≤ a.now ∧ st.fileOpens a = true

instance instDecidableReplayEnabled (st : ReplayState) (a : ReplayStep) : Decidable (st.Enabled a) :=
  inferInstanceAs (Decidable (_ ∧ _))

end ReplayState

end Etherchimp
