import Etherchimp.Graph.State
import Mathlib.Data.Vector.Basic
import Mathlib.Data.List.Range

/-!
# The packet ring

A sliding window of recent packets for the live packet tables: a ring of
`maxPackets` slots, the index of the oldest and the number in use. Packets are
numbered from 1 in the order they came, and the polls return what follows a
number the client has already seen.
-/

namespace Etherchimp

/--
The direction-normalized stream identifier of a packet, empty without both
ports.
-/
def streamKey (srcIP : String) (srcPort : UInt16) (dstIP : String) (dstPort : UInt16)
    (protocol : String) : String :=
  if srcPort = 0 ∨ dstPort = 0 then ""
  else
    let streamType := if protocol = "UDP" ∨ protocol = "DNS" then "UDP" else "TCP"
    let src := srcIP ++ ":" ++ toString srcPort.toNat
    let dst := dstIP ++ ":" ++ toString dstPort.toNat
    let (src, dst) := if dst < src then (dst, src) else (src, dst)
    streamType ++ "-" ++ src ++ "-" ++ dst

/-- A captured packet with its payload. -/
structure PacketData where
  id : Nat := 0
  timestamp : Int := 0
  srcIP : String := ""
  dstIP : String := ""
  srcPort : UInt16 := 0
  dstPort : UInt16 := 0
  protocol : String := ""
  length : Nat := 0
  payload : List UInt8 := []
  vlanID : UInt16 := 0
  /-- Links the packet to its stream; empty when the packet has no ports. -/
  streamID : String := ""
  deriving DecidableEq

/-- The stream link of a packet. -/
def streamLink (pkt : PacketInfo) : String :=
  streamKey pkt.srcIP pkt.srcPort pkt.dstIP pkt.dstPort pkt.protocol.name

/-- What the store keeps of a packet. -/
def packetData (id : Nat) (now : Int) (pkt : PacketInfo) : PacketData where
  id := id
  timestamp := now
  srcIP := pkt.srcIP
  dstIP := pkt.dstIP
  srcPort := pkt.srcPort
  dstPort := pkt.dstPort
  protocol := pkt.protocol.name
  length := pkt.length
  payload := pkt.payload
  vlanID := pkt.vlanID
  streamID := streamLink pkt

/-- The ring. A slot is an index of `packets` by its type, and so is `head`. -/
structure PacketStore where
  maxPackets : Nat
  packets : Vector PacketData maxPackets
  /-- The slot of the oldest packet. -/
  head : Fin maxPackets
  /-- How many slots are in use. -/
  size : Nat
  nextID : Nat
  size_le : size ≤ maxPackets

def newPacketStore (maxPackets : Nat) (hpos : 0 < maxPackets) : PacketStore where
  maxPackets := maxPackets
  packets := Vector.replicate maxPackets {}
  head := ⟨0, hpos⟩
  size := 0
  nextID := 1
  size_le := Nat.zero_le _

namespace PacketStore

/-- The slot `i` places after the oldest. -/
def slot (ps : PacketStore) (i : Nat) : Fin ps.maxPackets :=
  ⟨(ps.head + i) % ps.maxPackets, Nat.mod_lt _ ps.head.pos⟩

/-- The packet `i` places after the oldest. -/
def nth (ps : PacketStore) (i : Nat) : PacketData := ps.packets.get (ps.slot i)

/-- Add a packet: at the tail while there is room, else over the oldest. -/
def addPacket (ps : PacketStore) (now : Int) (pkt : PacketInfo) : PacketStore :=
  let data := packetData ps.nextID now pkt
  let insertPos := ps.slot ps.size
  if h : ps.size < ps.maxPackets then
    { ps with
      packets := ps.packets.set insertPos data
      size := ps.size + 1
      nextID := ps.nextID + 1
      size_le := h }
  else
    { ps with
      packets := ps.packets.set ps.head data
      head := ps.slot 1
      nextID := ps.nextID + 1 }

/-- All stored packets in chronological order. -/
def getPackets (ps : PacketStore) : List PacketData := (List.range ps.size).map ps.nth

/-! ## Polls -/

/-- The scan of a poll over the packets still to visit. -/
def scan (sinceID : Int) (limit : Int) (keep : PacketData → Bool) :
    List PacketData → List PacketData → Int → List PacketData × Int
  | [], result, cursor => (result, cursor)
  | p :: rest, result, cursor =>
    if (p.id : Int) ≤ sinceID ∨ keep p = false then scan sinceID limit keep rest result cursor
    else
      let result := result ++ [p]
      let cursor := if cursor < p.id then (p.id : Int) else cursor
      if limit ≤ result.length then (result, cursor)
      else scan sinceID limit keep rest result cursor

/-- The first `limit` kept packets after `sinceID`, and the next cursor. -/
def poll (ps : PacketStore) (keep : PacketData → Bool) (sinceID limit : Int) :
    List PacketData × Int :=
  let limit := if limit ≤ 0 then 200 else limit
  scan sinceID limit keep ps.getPackets [] sinceID

/-- Packets after `sinceID`. -/
def getPacketsSince (ps : PacketStore) (sinceID limit : Int) : List PacketData × Int :=
  ps.poll (fun _ => true) sinceID limit

/-- Packets whose source or destination is in the set. -/
def getPacketsForIPs (ps : PacketStore) (ipSet : String → Bool) (sinceID limit : Int) :
    List PacketData × Int :=
  ps.poll (fun p => ipSet p.srcIP || ipSet p.dstIP) sinceID limit

/-- Packets exchanged between the two sets. -/
def getPacketsBetween (ps : PacketStore) (setA setB : String → Bool) (sinceID limit : Int) :
    List PacketData × Int :=
  ps.poll (fun p => (setA p.srcIP && setB p.dstIP) || (setB p.srcIP && setA p.dstIP)) sinceID limit

end PacketStore

/-! ## The polls of the graph manager -/

namespace Manager

/-- The addresses of a node, and its id, which may itself be one. -/
def nodeIPSet (m : Manager) (nodeID ip : String) : Bool :=
  ip = nodeID ||
    match m.nodes.lookup nodeID with
    | some node => node.ips.contains ip
    | none => false

/-- Packets involving any address of the node. -/
def getPacketsForNode (m : Manager) (ps : PacketStore) (nodeID : String) (sinceID limit : Int) :
    List PacketData × Int :=
  ps.getPacketsForIPs (m.nodeIPSet nodeID) sinceID limit

/-- Packets exchanged between the two endpoints of an edge; none for an edge that is gone. -/
def getPacketsForEdge (m : Manager) (ps : PacketStore) (edgeID : String) (sinceID limit : Int) :
    List PacketData × Int :=
  match m.edges.lookup edgeID with
  | none => ([], sinceID)
  | some edge =>
      ps.getPacketsBetween (m.nodeIPSet edge.fromID) (m.nodeIPSet edge.toID) sinceID limit

end Manager

end Etherchimp
