import Mathlib.Data.List.Sort
import Etherchimp.Graph.Ingest
import Etherchimp.Lib.Run

/-!
# Decay, reload, and runs of the manager

The remaining operations of `graph.Manager` and the run of any sequence of them.
-/

namespace Etherchimp

variable [RuneCase]

/-! ## Decay -/

def maxNodeRemovalsPerSweep : Nat := 50
def maxEdgeRemovalsPerSweep : Nat := 100

section Stale

variable {α : Type}

/-- Stalest first, ties broken by id. -/
def staleBefore (id : α → String) (lastSeen : α → Int) (a b : α) : Prop :=
  if lastSeen a = lastSeen b then id a ≤ id b else lastSeen a < lastSeen b

instance (id : α → String) (lastSeen : α → Int) : DecidableRel (staleBefore id lastSeen) :=
  fun a b => by unfold staleBefore; infer_instance

/-- The values older than the threshold, stalest first, at most `cap` of them. -/
def staleValues (id : α → String) (lastSeen : α → Int) (cap : Nat) (threshold now : Int)
    (entries : KeyedMap String α) : List α :=
  (((entries.entries.map fun e => e.2).filter fun v => threshold < now - lastSeen v).insertionSort
    (staleBefore id lastSeen)).take cap

end Stale

namespace Manager

/-- Drop one node and the lookups that lead to it. -/
def removeNode (m : Manager) (node : Node) : Manager :=
  let nodeID := node.ip
  let hostnames :=
    if node.hostname ≠ "" ∧ node.hostname ≠ nodeID then m.hostnameToNodeID.erase node.hostname
    else m.hostnameToNodeID
  { m with
    ipToNodeID := m.ipToNodeID.eraseAll node.ips
    hostnameToNodeID := hostnames.erase nodeID
    macToNodeID := node.macs.foldl
      (fun t mac => if t.lookup mac = some nodeID then t.erase mac else t) m.macToNodeID
    nodes := m.nodes.erase nodeID }

def removeStaleNodes (m : Manager) (threshold now : Int) : Manager × Nat :=
  let stale := staleValues Node.ip Node.lastSeen maxNodeRemovalsPerSweep threshold now m.nodes
  let m := if stale ≠ [] then { m with dirty := true } else m
  (stale.foldl removeNode m, stale.length)

def removeEdge (m : Manager) (edge : Edge) : Manager :=
  { m with
    edgesByNode := unindexEdgeLocked m.edgesByNode edge
    edges := m.edges.erase edge.id }

def removeStaleEdges (m : Manager) (threshold now : Int) : Manager × Nat :=
  let stale := staleValues Edge.id Edge.lastSeen maxEdgeRemovalsPerSweep threshold now m.edges
  let m := if stale ≠ [] then { m with dirty := true } else m
  (stale.foldl removeEdge m, stale.length)

/-- Clear drops the graph but keeps the MAC tables and the protocol totals. -/
def clear (m : Manager) : Manager :=
  { m with
    nodes := ∅
    edges := ∅
    edgesByNode := ∅
    ipToNodeID := ∅
    hostnameToNodeID := ∅
    recentFlows := ∅
    dirty := true }

end Manager

/-! ## Reload from stored aggregates -/

structure BulkNode where
  id : String
  hostname : String
  packetCount : Nat
  byteCount : Nat

structure BulkEdge where
  fromID : String
  toID : String
  protocol : String
  packetCount : Nat
  byteCount : Nat
  forwardPackets : Nat
  reversePackets : Nat
  forwardBytes : Nat
  reverseBytes : Nat

namespace Manager

/-- Run the rows through the packet path; row `i` reads the clock at `i`. -/
def bulkNodes (m : Manager) (nodes : List BulkNode) (clock : Nat → Int) : Manager :=
  nodes.zipIdx.foldl (fun m r => m.addOrUpdateNodeLocked r.1.id r.1.hostname 0 (clock r.2)) m

/-- Overwrite one target's counters: zero them the first time, then accumulate. -/
def overwriteCounters (m : Manager) (s : KeyedMap String Node × List String) (n : BulkNode) :
    KeyedMap String Node × List String :=
  let id := m.resolve n.id
  match s.1.lookup id with
  | none => s
  | some node =>
      let first : Bool := id ∉ s.2
      let node := if first then { node with packetCount := 0, byteCount := 0 } else node
      let node := { node with
        packetCount := node.packetCount + n.packetCount
        byteCount := node.byteCount + n.byteCount }
      (s.1.insert id node, if first then id :: s.2 else s.2)

/-- The protocol a stored name stands for: the catalog's, or a plain transport. -/
def protoByName (reg : Registry) (name : String) : Protocol :=
  ((Registry.ofList reg.all).byName.lookup name).getD
    { name := name, color := "#95a5a6", layer := "L4 · Transport", layerNum := 4 }

/-- An edge after taking over one stored row, its directional split already oriented. -/
def absorbRow (edge : Edge) (e : BulkEdge) (fwdP revP fwdB revB : Nat) (proto : Protocol)
    (now : Int) : Edge :=
  { edge with
    packetCount := edge.packetCount + e.packetCount
    byteCount := edge.byteCount + e.byteCount
    forwardPackets := edge.forwardPackets + fwdP
    reversePackets := edge.reversePackets + revP
    forwardBytes := edge.forwardBytes + fwdB
    reverseBytes := edge.reverseBytes + revB
    lastSeen := now
    protocol := if proto.generic then edge.protocol else proto }

/-- Load one stored edge. -/
def bulkEdge (reg : Registry) (m : Manager) (e : BulkEdge) (now : Int) : Manager :=
  let genuineSelfLoop : Bool := e.fromID = e.toID
  let fromID := m.resolve e.fromID
  let toID := m.resolve e.toID
  -- a self-loop that only the hostname mapping made is skipped
  if fromID = toID ∧ ¬ genuineSelfLoop then m
  else
    let proto := protoByName reg e.protocol
    let (edgeID, canonicalFrom, canonicalTo) := getCanonicalEdgeID fromID toID
    let m := m.addPeersLocked canonicalFrom canonicalTo
    -- the stored split is relative to the stored order
    let flip : Bool := canonicalFrom ≠ fromID
    let fwdP := if flip then e.reversePackets else e.forwardPackets
    let revP := if flip then e.forwardPackets else e.reversePackets
    let fwdB := if flip then e.reverseBytes else e.forwardBytes
    let revB := if flip then e.forwardBytes else e.reverseBytes
    let m :=
      match m.edges.lookup edgeID with
      | some edge =>
          { m with
            edges := m.edges.insert edgeID (absorbRow edge e fwdP revP fwdB revB proto now) }
      | none =>
          let edge : Edge :=
            { id := edgeID, fromID := canonicalFrom, toID := canonicalTo, protocol := proto
              packetCount := e.packetCount, byteCount := e.byteCount, lastSeen := now
              forwardPackets := fwdP, reversePackets := revP
              forwardBytes := fwdB, reverseBytes := revB }
          { m with
            edges := m.edges.insert edgeID edge
            edgesByNode := indexEdgeLocked m.edgesByNode edge }
    { m with
      protoCounts := m.protoCounts.insert e.protocol
        ((m.protoCounts.lookup e.protocol).getD 0 + e.packetCount) }

/-- Populate the graph from stored aggregates. -/
def bulkLoad (m : Manager) (reg : Registry) (nodes : List BulkNode) (edges : List BulkEdge)
    (clock : Nat → Int) : Manager :=
  let m := m.bulkNodes nodes clock
  let m := { m with dirty := true }
  let m := { m with nodes := (nodes.foldl (overwriteCounters m) (m.nodes, [])).1 }
  edges.zipIdx.foldl (fun m r => bulkEdge reg m r.1 (clock (nodes.length + r.2))) m

end Manager

/-! ## Snapshots -/

/-- An unfiltered copy of nodes and edges; a range over a Go map visits them in any order. -/
structure RawSnapshot where
  nodes : List Node := []
  edges : List Edge := []

def Manager.snapshotRaw (m : Manager) : RawSnapshot where
  nodes := m.nodes.entries.map fun e => e.2
  edges := m.edges.entries.map fun e => e.2

/-! ## Runs -/

/-- One call on the manager, with the clock readings it makes. -/
inductive Op
  | addOrUpdateNode (ip hostname : String) (bytes : Nat) (now : Int)
  | addOrUpdateEdge (srcIP dstIP : String) (protocol : Protocol) (bytes : Nat) (now : Int)
  | ingest (pkt : PacketInfo) (srcHostname dstHostname : String) (clock : Manager.IngestClock)
  | bulkLoad (reg : Registry) (nodes : List BulkNode) (edges : List BulkEdge) (clock : Nat → Int)
  | removeStaleNodes (threshold now : Int)
  | removeStaleEdges (threshold now : Int)
  | clear

open Manager in
def Op.apply (m : Manager) : Op → Manager
  | .addOrUpdateNode ip hostname bytes now => m.addOrUpdateNodeLocked ip hostname bytes now
  | .addOrUpdateEdge srcIP dstIP protocol bytes now =>
      m.addOrUpdateEdgeLocked srcIP dstIP protocol bytes now
  | .ingest pkt srcHostname dstHostname clock => m.ingest pkt srcHostname dstHostname clock
  | .bulkLoad reg nodes edges clock => m.bulkLoad reg nodes edges clock
  | .removeStaleNodes threshold now => (m.removeStaleNodes threshold now).1
  | .removeStaleEdges threshold now => (m.removeStaleEdges threshold now).1
  | .clear => m.clear

/-- The manager after a sequence of calls on a fresh one. -/
def runOps (ops : List Op) : Manager := Run.exec Op.apply newManager ops

end Etherchimp
