import Etherchimp.Graph.Address
import Etherchimp.Capture.Packet

/-!
# The graph manager's state

Nodes, edges and the lookup tables `graph.Manager` keeps under its lock. Times
and durations are nanoseconds, counters are naturals. The packet ring has a lock
of its own and is not part of this state.
-/

namespace Etherchimp

/-- `unicode.ToLower`, one rune at a time; the graph only needs it to be a function. -/
class RuneCase where
  toLower : Char → Char

/-- The ASCII part of the table. -/
instance : RuneCase := ⟨Char.toLower⟩

variable [RuneCase]

/-- `strings.ToLower`. -/
def toLower (s : String) : String := String.ofList (s.toList.map RuneCase.toLower)

structure Node where
  ip : String
  hostname : String
  ips : List String
  macs : List String := []
  packetCount : Nat
  byteCount : Nat
  lastSeen : Int
  /-- A multicast or broadcast rendezvous address, not a host. -/
  isGroup : Bool
  inPackets : Nat := 0
  outPackets : Nat := 0
  listenPorts : KeyedMap UInt16 Nat := ∅
  peers : KeyedMap String Unit := ∅
  role : String := ""
  icon : String := ""
  pendingRole : String := ""
  pendingSince : Int := 0
  deviceKind : String := ""
  deviceInfo : String := ""
  /-- The precomputed lowercase haystack of `SearchNodes`. -/
  searchCorpus : String := ""

structure Edge where
  id : String
  fromID : String
  toID : String
  protocol : Protocol
  packetCount : Nat
  byteCount : Nat
  lastSeen : Int
  forwardPackets : Nat := 0
  reversePackets : Nat := 0
  forwardBytes : Nat := 0
  reverseBytes : Nat := 0
  deriving DecidableEq

/-- Directional key of the per-interval traffic. -/
structure FlowKey where
  edgeID : String
  fromID : String
  toID : String
  protocol : String
  color : String
  deriving DecidableEq

structure TrafficFlow where
  edgeID : String
  fromID : String
  toID : String
  packets : Nat
  bytes : Nat
  protocol : String
  color : String
  deriving DecidableEq

structure Manager where
  nodes : KeyedMap String Node
  edges : KeyedMap String Edge
  /-- Adjacency index: node id to the set of its edge ids. -/
  edgesByNode : KeyedMap String (KeyedMap String Bool)
  ipToNodeID : KeyedMap String String
  hostnameToNodeID : KeyedMap String String
  /-- Host MAC to node id: the identity anchors. -/
  macToNodeID : KeyedMap String String
  /-- MACs seen on two live hosts at once; these never anchor. -/
  macShared : KeyedMap String Bool
  dirty : Bool
  recentFlows : KeyedMap FlowKey TrafficFlow
  protoCounts : KeyedMap String Nat
  macActiveWindow : Int

def newManager : Manager where
  nodes := ∅
  edges := ∅
  edgesByNode := ∅
  ipToNodeID := ∅
  hostnameToNodeID := ∅
  macToNodeID := ∅
  macShared := ∅
  dirty := false
  recentFlows := ∅
  protoCounts := ∅
  macActiveWindow := 90 * 1000000000

namespace Manager

/-- Record an edge under one endpoint. -/
def indexUnder (idx : KeyedMap String (KeyedMap String Bool)) (edgeID nodeID : String) :
    KeyedMap String (KeyedMap String Bool) :=
  idx.insert nodeID (((idx.lookup nodeID).getD ∅).insert edgeID true)

/-- Drop an edge from one endpoint's set, and the set when it was the last. -/
def unindexUnder (idx : KeyedMap String (KeyedMap String Bool)) (edgeID nodeID : String) :
    KeyedMap String (KeyedMap String Bool) :=
  match idx.lookup nodeID with
  | none => idx
  | some set =>
      let set := set.erase edgeID
      if set.entries = [] then idx.erase nodeID else idx.insert nodeID set

def indexEdgeLocked (idx : KeyedMap String (KeyedMap String Bool)) (e : Edge) :
    KeyedMap String (KeyedMap String Bool) :=
  [e.fromID, e.toID].foldl (fun idx nodeID => indexUnder idx e.id nodeID) idx

def unindexEdgeLocked (idx : KeyedMap String (KeyedMap String Bool)) (e : Edge) :
    KeyedMap String (KeyedMap String Bool) :=
  [e.fromID, e.toID].foldl (fun idx nodeID => unindexUnder idx e.id nodeID) idx

end Manager

/-- A MAC seen on two live hosts at once. -/
def Manager.isShared (m : Manager) (mac : String) : Bool := (m.macShared.lookup mac).getD false

/-- Recompute a node's search haystack: id, hostname when it differs, IPs, MACs. -/
def rebuildSearchCorpusLocked (n : Node) : Node :=
  { n with
    searchCorpus :=
      toLower n.ip
        ++ (if n.hostname ≠ "" ∧ n.hostname ≠ n.ip then "\n" ++ toLower n.hostname else "")
        ++ (n.ips.foldl (fun b ip => b ++ "\n" ++ toLower ip) "")
        ++ (n.macs.foldl (fun b mc => b ++ "\n" ++ toLower mc) "") }

section Corpus

variable (n : Node)

@[simp] theorem rebuild_ip : (rebuildSearchCorpusLocked n).ip = n.ip := rfl
@[simp] theorem rebuild_hostname : (rebuildSearchCorpusLocked n).hostname = n.hostname := rfl
@[simp] theorem rebuild_ips : (rebuildSearchCorpusLocked n).ips = n.ips := rfl
@[simp] theorem rebuild_macs : (rebuildSearchCorpusLocked n).macs = n.macs := rfl
@[simp] theorem rebuild_packetCount :
    (rebuildSearchCorpusLocked n).packetCount = n.packetCount := rfl
@[simp] theorem rebuild_byteCount : (rebuildSearchCorpusLocked n).byteCount = n.byteCount := rfl
@[simp] theorem rebuild_isGroup : (rebuildSearchCorpusLocked n).isGroup = n.isGroup := rfl
@[simp] theorem rebuild_lastSeen : (rebuildSearchCorpusLocked n).lastSeen = n.lastSeen := rfl

end Corpus

end Etherchimp
