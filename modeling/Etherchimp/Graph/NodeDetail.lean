import Etherchimp.Capture.Address
import Etherchimp.Capture.Oui
import Etherchimp.Graph.Classify
import Etherchimp.Lib.Runtime

/-!
# The detail of one node

What `/api/node` answers: the fields the stream leaves out and the node's busiest
connections, found through the adjacency index. The node may be asked for by any
address or MAC it is known by.
-/

namespace Etherchimp

/-- One connection of a node. -/
structure NodeDetailEdge where
  peer : String
  protocol : String
  color : String
  packetCount : Nat
  byteCount : Nat
  /-- The node is the edge's `From`. -/
  outbound : Bool
  deriving DecidableEq

structure NodeDetail where
  id : String
  label : String
  ips : List String
  macs : List String
  /-- The exclusive host MAC when known. -/
  primaryMAC : String
  role : String
  icon : String
  deviceInfo : String
  vendor : String
  deviceClass : String
  packetCount : Nat
  byteCount : Nat
  isGroup : Bool
  lastSeen : Int
  peers : Nat
  edges : List NodeDetailEdge := []
  tooltip : String := ""

/-- How many connections are listed. -/
def maxDetailEdges : Nat := 100

/-! ## The tooltip -/

/-- Display names of the roles. -/
def roleNames : List (String × String) :=
  [("server", "Server"), ("client", "Client"), ("router", "Router"), ("switch", "Switch"),
    ("gateway", "Gateway"), ("iot", "IoT"), ("multicast", "Multicast/Broadcast"),
    ("unknown", "Unknown")]

/-- A quotient in tenths, to the nearest and at a tie to the even one, as `%.1f` prints it. -/
def tenths (num den : Nat) : Nat :=
  let q := 10 * num / den
  let r := 10 * num % den
  if den < 2 * r ∨ (2 * r = den ∧ q % 2 = 1) then q + 1 else q

/-- A number of tenths with its point. -/
def pointed (tenths : Nat) : String := toString (tenths / 10) ++ "." ++ toString (tenths % 10)

/-- Bytes in the largest unit that they fill, up to 2^53 of them. -/
def formatByteCount (b : Nat) : String :=
  if b < 1024 then toString b ++ " B"
  else if b < 1024 ^ 2 then pointed (tenths b 1024) ++ " KB"
  else if b < 1024 ^ 3 then pointed (tenths b (1024 ^ 2)) ++ " MB"
  else if b < 1024 ^ 4 then pointed (tenths b (1024 ^ 3)) ++ " GB"
  else if b < 1024 ^ 5 then pointed (tenths b (1024 ^ 4)) ++ " TB"
  else pointed (tenths b (1024 ^ 4)) ++ " PB"

def nodeTooltip (d : NodeDetail) : String :=
  (if d.isGroup then "⚲ Multicast/broadcast group (not a host)\n" else "")
    ++ (if d.role ≠ "" ∧ d.role ≠ "unknown" ∧ ¬ d.isGroup then
          "Role: " ++ (roleNames.lookup d.role).getD d.role ++ "\n"
        else "")
    ++ (if d.deviceInfo ≠ "" then "Link: " ++ d.deviceInfo ++ "\n" else "")
    ++ (if d.vendor ≠ "" then
          "Device: " ++ d.vendor ++ (if d.deviceClass ≠ "" then " · " ++ d.deviceClass else "") ++ "\n"
        else if d.deviceClass ≠ "" then "Device: " ++ d.deviceClass ++ "\n"
        else "")
    ++ (if d.label ≠ "" ∧ d.label ≠ d.id then "Hostname: " ++ d.label ++ "\n" else "")
    ++ (match d.ips with
        | [ip] => "IP: " ++ ip ++ "\n"
        | [] => if (parseIP d.id).isSome then "IP: " ++ d.id ++ "\n" else ""
        | ips => "IPs:\n" ++ ips.foldl (fun t ip => t ++ "  " ++ ip ++ "\n") "")
    ++ "Packets: " ++ toString d.packetCount ++ "\nBytes: " ++ formatByteCount d.byteCount

/-! ## The record -/

/-- An edge as one of the connections of the node it is filed under. -/
def detailEdge (id : String) (e : Edge) : NodeDetailEdge where
  peer := if e.toID = id then e.fromID else e.toID
  protocol := e.protocol.name
  color := e.protocol.color
  packetCount := e.packetCount
  byteCount := e.byteCount
  outbound := e.toID ≠ id

/-- More packets come first. -/
def busierConnection (a b : NodeDetailEdge) : Bool := b.packetCount < a.packetCount

namespace Manager

/-- The id of the node that an id, an address or a MAC stands for. -/
def canonicalID (m : Manager) (id : String) : String :=
  if (m.nodes.lookup id).isSome then id
  else ((m.ipToNodeID.lookup id).or (m.macToNodeID.lookup id)).getD id

/-- The first MAC that identifies the node alone, or else the first. -/
def primaryMAC (m : Manager) (id : String) (macs : List String) : String :=
  ((macs.find? fun mc => (m.macToNodeID.lookup mc).getD "" = id ∧ ¬ m.isShared mc).or
    macs.head?).getD ""

/-- The edges the index has for a node. -/
def indexedEdges (go : Runtime) (m : Manager) (id : String) : List Edge :=
  (go.rangeOf ((m.edgesByNode.lookup id).getD ∅)).filterMap fun x => m.edges.lookup x.1

variable [RuneCase]

/-- The full record of one node. -/
def getNodeDetail (go : Runtime) (ouiData : String) (m : Manager) (query : String) :
    Option NodeDetail :=
  let id := m.canonicalID query
  (m.nodes.lookup id).map fun n =>
    let (role, icon) := classifyNode n
    let primaryMAC := m.primaryMAC id n.macs
    let (vendor, deviceClass) := identifyMAC ouiData primaryMAC
    let edges := (m.indexedEdges go id).map (detailEdge id)
    let d : NodeDetail :=
      { id := id
        label := if n.hostname = "" then id else n.hostname
        ips := n.ips, macs := n.macs, primaryMAC := primaryMAC
        role := role, icon := icon, deviceInfo := n.deviceInfo
        vendor := vendor, deviceClass := deviceClass
        packetCount := n.packetCount, byteCount := n.byteCount
        isGroup := n.isGroup, lastSeen := n.lastSeen
        peers := n.peers.entries.length
        -- sorted before it is cut, so that a hub lists its busiest
        edges := (go.sortSlice busierConnection edges).take maxDetailEdges }
    { d with tooltip := nodeTooltip d }

end Manager

end Etherchimp
