import Etherchimp.Lib.LinkedList
import Etherchimp.Lib.Run
import Etherchimp.Stream.Protocol

/-!
# The stream manager

Every packet with ports is filed under the stream of its two endpoints. The
manager keeps at most `maxStreams` of them: a map from stream id to stream, and a
linked list of the ids, least recently seen at the front, in which every stream
knows its own element.
-/

namespace Etherchimp

/-- Cap on the payload kept for one direction of a stream. -/
def maxStreamPayload : Nat := 64 * 1024

/-- One endpoint of a stream id. -/
def endpointText (ip : String) (port : UInt16) : String := ip ++ ":" ++ toString port.toNat

/-- A unique stream identifier, the lower endpoint first. -/
def generateStreamID (srcIP : String) (srcPort : UInt16) (dstIP : String) (dstPort : UInt16)
    (streamType : StreamType) : String :=
  let src := endpointText srcIP srcPort
  let dst := endpointText dstIP dstPort
  let (src, dst) := if dst < src then (dst, src) else (src, dst)
  streamType.text ++ "-" ++ src ++ "-" ++ dst

/-- Whether `AddPacket` skips the packet for want of port info. -/
def hasNoPorts (pkt : PacketInfo) : Bool := pkt.srcPort = 0 ∧ pkt.dstPort = 0

/-- The stream type by the name of the protocol; every other protocol is taken for TCP. -/
def streamTypeOf (pkt : PacketInfo) : StreamType :=
  if pkt.protocol.name = "UDP" ∨ pkt.protocol.name = "DNS" then .udp else .tcp

/-- The id `AddPacket` looks a packet's stream up under. -/
def streamIDOf (pkt : PacketInfo) : String :=
  generateStreamID pkt.srcIP pkt.srcPort pkt.dstIP pkt.dstPort (streamTypeOf pkt)

/-! ## One stream -/

/-- The stream its first packet creates. -/
def newStream (now : Int) (pkt : PacketInfo) (orderElem : Nat) : Stream where
  id := streamIDOf pkt
  type := streamTypeOf pkt
  srcIP := pkt.srcIP
  srcPort := pkt.srcPort
  dstIP := pkt.dstIP
  dstPort := pkt.dstPort
  startTime := now
  lastSeen := now
  orderElem := orderElem

/-- Append `src` to `dst`, never growing it past `maxStreamPayload`. -/
def appendCapped (dst src : List UInt8) : List UInt8 :=
  let room := maxStreamPayload - dst.length
  if 0 < room then dst ++ src.take (min room src.length) else dst

namespace Stream

/-- The direction of a packet: a response when it comes from the responder's port or address. -/
def directionOf (stream : Stream) (pkt : PacketInfo) : StreamDirection :=
  if pkt.srcPort = stream.dstPort ∨ pkt.srcIP = stream.dstIP then .response else .request

/-- The record of a packet. -/
def record (stream : Stream) (now : Int) (pkt : PacketInfo) : StreamPacket where
  timestamp := now
  direction := stream.directionOf pkt
  length := pkt.payload.length
  payload := pkt.payload

/-- Whether a packet delivers the first bytes of its direction. -/
def firstBytes (stream : Stream) (pkt : PacketInfo) : Bool :=
  0 < pkt.payload.length ∧
    ((stream.directionOf pkt = .request ∧ stream.requestData.length = 0) ∨
      (stream.directionOf pkt = .response ∧ stream.responseData.length = 0))

/-- Store the packet while there is room, and accumulate its payload and the counters. -/
def accumulate (stream : Stream) (now : Int) (pkt : PacketInfo) : Stream :=
  { stream with
    packets :=
      if stream.packets.length < 500 then stream.packets ++ [stream.record now pkt]
      else stream.packets
    requestData :=
      if stream.directionOf pkt = .request then appendCapped stream.requestData pkt.payload
      else stream.requestData
    responseData :=
      if stream.directionOf pkt = .request then stream.responseData
      else appendCapped stream.responseData pkt.payload
    packetCount := stream.packetCount + 1
    byteCount := stream.byteCount + pkt.length
    lastSeen := now }

/-- Recompute the protocol and, when it can have changed, the summary. -/
def reclassify (stream : Stream) (pkt : PacketInfo) (firstBytes : Bool) : Stream :=
  let newProtocol := detectProtocol pkt stream
  if newProtocol ≠ stream.protocol ∨ firstBytes ∨ stream.summary = [] then
    { stream with
      protocol := newProtocol
      summary := generateSummary { stream with protocol := newProtocol } }
  else stream

/-- What `AddPacket` does to the stream of a packet. -/
def add (stream : Stream) (now : Int) (pkt : PacketInfo) : Stream :=
  (stream.accumulate now pkt).reclassify pkt (stream.firstBytes pkt)

end Stream

/-! ## The manager -/

structure StreamManager where
  streams : KeyedMap String Stream
  /-- Stream ids, least recently seen at the front. -/
  order : LinkedList String
  maxStreams : Nat

def newStreamManager (maxStreams : Int) : StreamManager where
  streams := ∅
  order := LinkedList.empty
  maxStreams := if maxStreams ≤ 0 then 1000 else maxStreams.toNat

namespace StreamManager

/-- Remove the least recently seen stream, the front of the list. -/
def evictOldestStream (m : StreamManager) : StreamManager :=
  match m.order.front with
  | none => m
  | some front =>
    { m with
      order := m.order.remove front.1
      streams := m.streams.erase front.2 }

/-- Room for one more stream. -/
def makeRoom (m : StreamManager) : StreamManager :=
  if m.maxStreams ≤ m.streams.keys.length then m.evictOldestStream else m

/-- Find the packet's stream and move it to the back of the list, or create it there. -/
def openStream (m : StreamManager) (now : Int) (pkt : PacketInfo) : StreamManager × Stream :=
  match m.streams.lookup (streamIDOf pkt) with
  | none =>
    let m := m.makeRoom
    ({ m with order := m.order.pushBack (streamIDOf pkt) }, newStream now pkt m.order.next)
  | some stream => ({ m with order := m.order.moveToBack stream.orderElem }, stream)

/-- Add a packet to its stream. -/
def addPacket (m : StreamManager) (now : Int) (pkt : PacketInfo) : StreamManager :=
  if hasNoPorts pkt then m
  else
    let (m, stream) := m.openStream now pkt
    { m with streams := m.streams.insert (streamIDOf pkt) (stream.add now pkt) }

/-- Remove all streams. -/
def clear (m : StreamManager) : StreamManager := { m with streams := ∅, order := m.order.renew }

end StreamManager

/-! ## Runs -/

/-- A call to the manager; `now` is the clock reading the call makes. -/
inductive StreamOp where
  | addPacket (now : Int) (pkt : PacketInfo)
  | clear

/-- The id a call files its packet under. -/
def StreamOp.filesUnder : StreamOp → Option String
  | .addPacket _ pkt => if hasNoPorts pkt then none else some (streamIDOf pkt)
  | .clear => none

namespace StreamManager

def step (m : StreamManager) : StreamOp → StreamManager
  | .addPacket now pkt => m.addPacket now pkt
  | .clear => m.clear

/-- The manager after a sequence of calls. -/
def run (maxStreams : Int) (ops : List StreamOp) : StreamManager :=
  Run.exec step (newStreamManager maxStreams) ops

end StreamManager

end Etherchimp
