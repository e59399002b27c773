import Etherchimp.Lib.KeyedMap
import Etherchimp.Lib.Run

/-!
# Reverse DNS

`Resolve` never waits: it answers from the cache, or asks for a lookup and answers with
the address itself. Ten workers take addresses from a bounded queue and fill the cache.
Nothing marks an address as asked for, so one may be queued and looked up several times.

A call of `Resolve` and a worker hold the cache's lock only while they read or write one
entry; between two of their steps any other may run.
-/

namespace Etherchimp

/-- What a worker is at. -/
inductive Worker
  | idle
  /-- It took an address from the queue. -/
  | took (ip : String)
  /-- The address was not in the cache, and the network is asked. -/
  | looking (ip : String)
  /-- The context was cancelled. -/
  | done
  deriving DecidableEq

/-- What a worker asks the network for. -/
def Worker.lookup : Worker → Option String
  | .looking ip => some ip
  | _ => none

/-- The size of the lookup queue. -/
def lookupQueue : Nat := 100

def lookupWorkers : Nat := 10

structure DNSResolver where
  cache : KeyedMap String String
  lookupChan : List String
  workers : List Worker
  /-- Calls of `Resolve` that found nothing in the cache and have not queued yet. -/
  calls : List String
  cancelled : Bool
  /-- Every name a worker stored and every answer a call gave, oldest first; neither is
  kept by the program. -/
  stored : List (String × String)
  answers : List (String × String)

/-- `NewDNSResolver` and `Start`. -/
def newDNSResolver : DNSResolver where
  cache := ∅
  lookupChan := []
  workers := List.replicate lookupWorkers .idle
  calls := []
  cancelled := false
  stored := []
  answers := []

/-- The name without its trailing dot. -/
def trimDot (hostname : String) : String :=
  match hostname.toList.reverse with
  | '.' :: rest => String.ofList rest.reverse
  | _ => hostname

/-- What a lookup caches: the first name, or the address when there is none. -/
def lookupResult (ip : String) (names : Option (List String)) : String :=
  match names with
  | some (name :: _) => trimDot name
  | _ => ip

namespace DNSResolver

inductive Event
  /-- A call looks in the cache. -/
  | resolve (ip : String)
  /-- A call that missed queues its address, or skips it when the queue is full. -/
  | enqueue (i : Nat)
  /-- A worker takes an address, looks in the cache, and stores what it found. -/
  | take (w : Nat)
  | look (w : Nat)
  | store (w : Nat) (names : Option (List String))
  | cancel
  | exit (w : Nat)

def step (r : DNSResolver) : Event → DNSResolver
  | .resolve ip =>
      match r.cache.lookup ip with
      | some hostname => { r with answers := r.answers ++ [(ip, hostname)] }
      | none => { r with calls := r.calls ++ [ip] }
  | .enqueue i =>
      match r.calls[i]? with
      | some ip =>
          { r with
            calls := r.calls.eraseIdx i
            lookupChan :=
              if r.lookupChan.length < lookupQueue then r.lookupChan ++ [ip] else r.lookupChan
            answers := r.answers ++ [(ip, ip)] }
      | none => r
  | .take w =>
      match r.workers[w]?, r.lookupChan with
      | some .idle, ip :: rest =>
          { r with workers := r.workers.set w (.took ip), lookupChan := rest }
      | _, _ => r
  | .look w =>
      match r.workers[w]? with
      | some (.took ip) =>
          { r with
            workers :=
              r.workers.set w (if (r.cache.lookup ip).isSome then .idle else .looking ip) }
      | _ => r
  | .store w names =>
      match r.workers[w]? with
      | some (.looking ip) =>
          { r with
            workers := r.workers.set w .idle
            cache := r.cache.insert ip (lookupResult ip names)
            stored := r.stored ++ [(ip, lookupResult ip names)] }
      | _ => r
  | .cancel => { r with cancelled := true }
  | .exit w =>
      match r.workers[w]? with
      | some .idle => if r.cancelled then { r with workers := r.workers.set w .done } else r
      | _ => r

def run (l : List Event) : DNSResolver := Run.exec step newDNSResolver l

end DNSResolver

end Etherchimp
