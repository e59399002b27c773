import Etherchimp.Graph.Dns
import Etherchimp.Graph.Ops
import Etherchimp.Graph.PacketStore
import Etherchimp.Store.Writer
import Etherchimp.Stream.Manager

/-!
# The live ingest path

A capture offers packets to a bounded channel. One goroutine takes them off and runs each
through `processPacket`: host names, the packet ring, the graph, a handoff to stream
tracking and the persistence hook. Around it the resolver's workers, the decay of the
graph, the stream goroutine and the store's writer go on; any of them may act between two
steps of a packet.

Both channels are sent to without blocking. A packet that finds the first one full is
lost to everything, one that finds the second full is lost to stream tracking alone, and
each is counted.
-/

namespace Etherchimp

/-- The capacity of the packet channel. -/
def packetChanCap : Nat := 1000

/-- The capacity of the stream channel. -/
def streamChCap : Nat := 4096

/-- The size of the packet ring. -/
def packetRing : Nat := 1000

/-- A packet with its time and the host names it is filed under. -/
structure NamedPacket where
  pkt : PacketInfo
  ts : Int
  srcHostname : String
  dstHostname : String

/-- The event the store is given. -/
def NamedPacket.event (captureID : Int) (f : NamedPacket) : PacketEvent where
  captureID := captureID
  ts := f.ts
  src := f.pkt.srcIP
  dst := f.pkt.dstIP
  srcHost := f.srcHostname
  dstHost := f.dstHostname
  srcPort := f.pkt.srcPort
  dstPort := f.pkt.dstPort
  proto := f.pkt.protocol.name
  length := f.pkt.length
  vlan := f.pkt.vlanID

/-- How far `processPacket` is with a packet. -/
inductive Stage
  | waiting
  | source (pkt : PacketInfo) (ts : Int)
  | destination (pkt : PacketInfo) (ts : Int) (srcHostname : String)
  | ring (f : NamedPacket)
  | graph (f : NamedPacket)
  | streams (f : NamedPacket)
  | record (f : NamedPacket)
  | index (f : NamedPacket)

structure Pipeline where
  packetChan : List PacketInfo
  chanDrops : Nat
  stage : Stage
  resolver : DNSResolver
  packetStore : PacketStore
  graphMgr : Manager
  streamCh : List PacketInfo
  streamDrops : Nat
  streamMgr : StreamManager
  db : Store
  /-- Every packet that was offered, and every packet that has its names, in order;
  neither is kept by the program. -/
  offered : List PacketInfo
  filed : List NamedPacket

namespace Pipeline

def start (bucketSecs : Int) (maxStreams : Int) : Pipeline where
  packetChan := []
  chanDrops := 0
  stage := .waiting
  resolver := newDNSResolver
  packetStore := newPacketStore packetRing (by decide)
  graphMgr := newManager
  streamCh := []
  streamDrops := 0
  streamMgr := newStreamManager maxStreams
  db := openStore bucketSecs
  offered := []
  filed := []

/-- One step of a name: the packet's own, or else what `Resolve` says once it returns. -/
def resolveName (r : DNSResolver) (name ip : String) : DNSResolver × Option String :=
  if name ≠ "" then (r, some name)
  else if r.calls = [] then (r.step (.resolve ip), r.cache.lookup ip)
  else (r.step (.enqueue 0), some ip)

inductive Event
  /-- The capture offers a packet. -/
  | capture (pkt : PacketInfo)
  /-- The next step of the ingest goroutine, with the clock readings it makes. -/
  | ingest (now : Int) (clock : Manager.IngestClock) (sampled : Bool)
  /-- A resolver's worker takes an address, looks in the cache or stores a name. -/
  | take (w : Nat)
  | look (w : Nat)
  | resolved (w : Nat) (names : Option (List String))
  | decayNodes (threshold now : Int)
  | decayEdges (threshold now : Int)
  /-- The stream goroutine takes a packet. -/
  | track (now : Int)
  /-- The store's writer. -/
  | receive
  | tick
  | drain
  | commit (ok : Bool)

variable [RuneCase] (reg : Registry) (captureID : Int)

/-- One step of `processPacket`. -/
def ingestStep (p : Pipeline) (now : Int) (clock : Manager.IngestClock) (sampled : Bool) :
    Pipeline :=
  match p.stage with
  | .waiting =>
      match p.packetChan with
      | pkt :: rest => { p with packetChan := rest, stage := .source pkt now }
      | [] => p
  | .source pkt ts =>
      match resolveName p.resolver pkt.srcName pkt.srcIP with
      | (r, some hostname) => { p with resolver := r, stage := .destination pkt ts hostname }
      | (r, none) => { p with resolver := r }
  | .destination pkt ts srcHostname =>
      match resolveName p.resolver pkt.dstName pkt.dstIP with
      | (r, some dstHostname) =>
          let f : NamedPacket := ⟨pkt, ts, srcHostname, dstHostname⟩
          { p with resolver := r, stage := .ring f, filed := p.filed ++ [f] }
      | (r, none) => { p with resolver := r }
  | .ring f =>
      { p with packetStore := p.packetStore.addPacket now f.pkt, stage := .graph f }
  | .graph f =>
      { p with
        graphMgr := p.graphMgr.ingest f.pkt f.srcHostname f.dstHostname clock
        stage := .streams f }
  | .streams f =>
      if p.streamCh.length < streamChCap then
        { p with streamCh := p.streamCh ++ [f.pkt], stage := .record f }
      else { p with streamDrops := p.streamDrops + 1, stage := .record f }
  | .record f =>
      { p with db := p.db.step reg (.record (f.event captureID)), stage := .index f }
  | .index f =>
      { p with
        db := if sampled then p.db.step reg (.send (f.event captureID)) else p.db
        stage := .waiting }

def step (p : Pipeline) : Event → Pipeline
  | .capture pkt =>
      if p.packetChan.length < packetChanCap then
        { p with packetChan := p.packetChan ++ [pkt], offered := p.offered ++ [pkt] }
      else { p with chanDrops := p.chanDrops + 1, offered := p.offered ++ [pkt] }
  | .ingest now clock sampled => p.ingestStep reg captureID now clock sampled
  | .take w => { p with resolver := p.resolver.step (.take w) }
  | .look w => { p with resolver := p.resolver.step (.look w) }
  | .resolved w names => { p with resolver := p.resolver.step (.store w names) }
  | .decayNodes threshold now =>
      { p with graphMgr := (p.graphMgr.removeStaleNodes threshold now).1 }
  | .decayEdges threshold now =>
      { p with graphMgr := (p.graphMgr.removeStaleEdges threshold now).1 }
  | .track now =>
      match p.streamCh with
      | pkt :: rest => { p with streamCh := rest, streamMgr := p.streamMgr.addPacket now pkt }
      | [] => p
  | .receive => { p with db := p.db.step reg .receive }
  | .tick => { p with db := p.db.step reg .tick }
  | .drain => { p with db := p.db.step reg .drain }
  | .commit ok => { p with db := p.db.step reg (.commit ok) }

def run (bucketSecs : Int) (maxStreams : Int) (l : List Event) : Pipeline :=
  Run.exec (step reg captureID) (start bucketSecs maxStreams) l

end Pipeline

end Etherchimp
