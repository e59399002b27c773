import Etherchimp.Graph.Classify
import Etherchimp.Graph.Subnet
import Etherchimp.Lib.Runtime
import Etherchimp.Replay.Reader

/-!
# The graph of a replay

A replay builds its graph from packets alone: each counts its two endpoints under
the names it resolved, then its edge, and no MAC is recorded. A name the packet carries
goes before one that is looked up, and what was looked up is remembered.
-/

namespace Etherchimp

variable [RuneCase]

namespace Manager

/-- Both endpoints of a packet and its edge, one call after the other. -/
def addReplayed (m : Manager) (pkt : PacketInfo) (srcHostname dstHostname : String)
    (clock : IngestClock) : Manager :=
  let m := m.addOrUpdateNodeLocked pkt.srcIP srcHostname pkt.length clock.srcSeen
  let m := m.addOrUpdateNodeLocked pkt.dstIP dstHostname pkt.length clock.dstSeen
  m.addOrUpdateEdgeLocked pkt.srcIP pkt.dstIP pkt.protocol pkt.length clock.edgeSeen

/-- The graph's part of adding a packet to the store. -/
def addPacket (m : Manager) (pkt : PacketInfo) : Manager :=
  { m with dirty := true }.stampDeviceInfoLocked pkt

/-- The copy of the graph; its nodes and edges come in map order. -/
def getSnapshot (go : Runtime) (m : Manager) : RawSnapshot where
  nodes := (go.rangeOf m.nodes).map Sigma.snd
  edges := (go.rangeOf m.edges).map Sigma.snd

end Manager

/-! ## Names -/

/-- Hostnames by address, as far as they were looked up. -/
abbrev DNSCache := KeyedMap String String

/-- The hostname of an address; `lookupAddr` answers none for an address without a name. -/
def resolveIPSync (lookupAddr : String → List String) (ip : String) (cache : DNSCache) :
    String × DNSCache :=
  match cache.lookup ip with
  | some hostname => (hostname, cache)
  | none =>
      match lookupAddr ip with
      | [] => (ip, cache.insert ip ip)
      | name :: _ =>
          let hostname := trimSuffix name "."
          (hostname, cache.insert ip hostname)

/-- The name a packet carries for an endpoint, else the hostname of its address. -/
def endpointName (lookupAddr : String → List String) (name ip : String) (cache : DNSCache) :
    String × DNSCache :=
  if name = "" then resolveIPSync lookupAddr ip cache else (name, cache)

/-! ## The build -/

/-- One packet, at the clock readings its calls make. -/
def replayPacket (lookupAddr : String → List String) (s : Manager × DNSCache)
    (p : PacketInfo × Manager.IngestClock) : Manager × DNSCache :=
  let (pkt, clock) := p
  let (srcHostname, cache) := endpointName lookupAddr pkt.srcName pkt.srcIP s.2
  let (dstHostname, cache) := endpointName lookupAddr pkt.dstName pkt.dstIP cache
  ((s.1.addReplayed pkt srcHostname dstHostname clock).addPacket pkt, cache)

/-- The snapshot of some packets, and the cache it leaves. -/
def buildSnapshotFromPackets (go : Runtime) (lookupAddr : String → List String) (now : Int)
    (packets : List (PacketInfo × Manager.IngestClock)) (dnsCache : DNSCache) :
    RawSnapshot × DNSCache :=
  let (tempGraph, cache) := packets.foldl (replayPacket lookupAddr) (newManager, dnsCache)
  ((tempGraph.commitRoles now).getSnapshot go, cache)

end Etherchimp
