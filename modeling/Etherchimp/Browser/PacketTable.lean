import Etherchimp.Graph.PacketReaders
import Etherchimp.Lib.Newest

/-!
# The packet table of the page

Packets are fetched, not pushed: once a second the page asks for what is newer than its
cursor, and it keeps what it was sent in a cache by packet number, of bounded size. A
payload search puts its matches in the same cache, and a click on a found host the host's
newest packet. Going to a replay and coming back empty the cache, because a replay numbers
its packets from 1 as well; scrubbing asks for the packets up to an offset, and only the
answer to the latest scrub counts.

Requests are answered and arrive in any order, or not at all, and a timer does not wait
for the last poll. A restarted server numbers its packets from 1 again, while the page
keeps its cursor and its cache.
-/

namespace Etherchimp

/-- `MAX_CACHED_PACKETS` -/
def maxCachedPackets : Nat := 5000

/-- The size of the server's ring, and the page's limit. -/
def ringSize : Nat := 1000

/-- Put a packet in the cache unless one of its number is there. -/
def cachePacket (cache : KeyedMap Nat PacketData) (p : PacketData) : KeyedMap Nat PacketData :=
  if (cache.lookup p.id).isSome then cache else cache.insert p.id p

/-- `updatePacketCache`: the oldest numbers go when there are too many. -/
def updatePacketCache (cache : KeyedMap Nat PacketData) (newPackets : List PacketData) :
    KeyedMap Nat PacketData :=
  if newPackets = [] then cache
  else Newest.evict maxCachedPackets (newPackets.foldl cachePacket cache)

/-- What the page asks for. -/
inductive Ask
  | poll (since : Int)
  | payload (seq : Nat) (text : Wire.Bytes)
  /-- The newest packet of a host. -/
  | recent
  | scrub (seq : Nat)

/-- What an answer carries, and how many packets the server had numbered by then. -/
structure Answer where
  packets : List PacketData
  cursor : Int := 0
  numbered : Nat := 0

structure PacketRequest where
  ask : Ask
  answer : Option Answer := none

structure PagePackets where
  /-- The server's ring, of `ringSize` packets. -/
  ring : PacketStore
  packetCursor : Int
  packetCache : KeyedMap Nat PacketData
  replaying : Bool
  payloadSearchId : Nat
  replayRequestSeq : Nat
  inFlight : List PacketRequest
  /-- What the running server has numbered, in order, and what the servers before it had;
  what searches found of the running server's packets and what scrubs brought in since the
  cache was emptied. None of it is kept by the program. -/
  numbered : List PacketData
  dead : List PacketData
  found : List PacketData
  scrubbed : List PacketData
  /-- The cursor when the cache was last emptied, and when the server last restarted. -/
  origin : Int
  floor : Int
  /-- The newest packet the server had when it answered a poll that has arrived. -/
  caughtUp : Nat

namespace PagePackets

def start : PagePackets where
  ring := newPacketStore ringSize (by decide)
  packetCursor := 0
  packetCache := ∅
  replaying := false
  payloadSearchId := 0
  replayRequestSeq := 0
  inFlight := []
  numbered := []
  dead := []
  found := []
  scrubbed := []
  origin := 0
  floor := 0
  caughtUp := 0

inductive Event
  /-- A packet reaches the server. -/
  | packet (now : Int) (pkt : PacketInfo)
  | poll
  | payloadSearch (text : Wire.Bytes)
  /-- A click on a host that a search found. -/
  | openHost
  | scrub
  /-- The server answers a request; a host has these addresses, a scrub gets its file's packets. -/
  | answer (i : Nat) (ips : String → Bool) (scrubbed : List PacketData)
  /-- The answer reaches the page, or never does. -/
  | arrive (i : Nat)
  | lose (i : Nat)
  | enterReplay
  | exitReplay
  /-- The server restarts, and its connections break. -/
  | restart

/-- `handlePackets`, `/api/search/payload`, `/api/packet/recent` and `/api/replay`. -/
def serve [RuneCase] (t : PagePackets) (ips : String → Bool) (scrubbed : List PacketData) :
    Ask → Except Panic Answer
  | .poll since =>
      let (packets, cursor) := t.ring.getPacketsSince since ringSize
      return { packets := packets, cursor := cursor, numbered := t.ring.nextID - 1 }
  | .payload _ text => do
      let found ← t.ring.searchPayload text 50
      return { packets := found.map PayloadMatch.packet }
  | .recent => do
      let found ← t.ring.mostRecentForIPs ips
      return { packets := found.toList }
  | .scrub _ => return { packets := scrubbed }

/-- `packetCache.set`, for what a search found. -/
def keepFound (t : PagePackets) (packets : List PacketData) : PagePackets :=
  { t with
    packetCache := packets.foldl (fun cache p => cache.insert p.id p) t.packetCache
    found := t.found ++ packets }

/-- The page takes an answer in. -/
def take (t : PagePackets) (a : Answer) : Ask → PagePackets
  | .poll _ =>
      { t with
        packetCursor := max t.packetCursor a.cursor
        packetCache := updatePacketCache t.packetCache a.packets
        caughtUp := max t.caughtUp a.numbered }
  | .payload seq _ => if seq ≠ t.payloadSearchId then t else t.keepFound a.packets
  | .recent => t.keepFound a.packets
  | .scrub seq =>
      if seq ≠ t.replayRequestSeq then t
      else
        { t with
          packetCache := updatePacketCache t.packetCache a.packets
          scrubbed := t.scrubbed ++ a.packets }

/-- `packetCache.clear()` -/
def clear (t : PagePackets) (replaying : Bool) : PagePackets :=
  { t with
    packetCache := ∅
    replaying := replaying
    found := []
    scrubbed := []
    origin := t.packetCursor }

/-- A request is sent. -/
def ask (t : PagePackets) (a : Ask) : PagePackets :=
  { t with inFlight := t.inFlight ++ [{ ask := a }] }

/-- The server answers a request it has not answered; one that panics never is. -/
def respond [RuneCase] (t : PagePackets) (ips : String → Bool) (scrubbed : List PacketData)
    (r : PacketRequest) : PacketRequest :=
  { r with answer := r.answer.or (t.serve ips scrubbed r.ask).toOption }

def step [RuneCase] (t : PagePackets) : Event → PagePackets
  | .packet now pkt =>
      { t with
        ring := t.ring.addPacket now pkt
        numbered := t.numbered ++ [packetData t.ring.nextID now pkt] }
  | .poll => if t.replaying then t else t.ask (.poll t.packetCursor)
  | .payloadSearch text =>
      if t.replaying then t
      else
        { t with payloadSearchId := t.payloadSearchId + 1 }.ask
          (.payload (t.payloadSearchId + 1) text)
  | .openHost => t.ask .recent
  | .scrub =>
      if t.replaying then
        { t with replayRequestSeq := t.replayRequestSeq + 1 }.ask (.scrub (t.replayRequestSeq + 1))
      else t
  | .answer i ips scrubbed =>
      { t with inFlight := t.inFlight.modify i (t.respond ips scrubbed) }
  | .arrive i =>
      match t.inFlight[i]? with
      | some ⟨ask, some a⟩ => { t with inFlight := t.inFlight.eraseIdx i }.take a ask
      | _ => t
  | .lose i => { t with inFlight := t.inFlight.eraseIdx i }
  | .enterReplay => t.clear true
  | .exitReplay => t.clear false
  | .restart =>
      -- nothing tells the page: its cursor and its cache stay as they are
      { t with
        ring := newPacketStore ringSize (by decide)
        inFlight := []
        numbered := []
        dead := t.dead ++ t.numbered
        found := []
        floor := t.packetCursor
        caughtUp := 0 }

end PagePackets

end Etherchimp
