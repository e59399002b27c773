import Etherchimp.Graph.State
import Etherchimp.Lib.Delta
import Etherchimp.Lib.Wire
import Etherchimp.Server.View

/-!
# One WebSocket client of the hub

The server keeps, for each client, what it was last sent, and diffs every new view
against it over three channels: style deltas, binary position frames and counts
frames. Times are nanoseconds.
-/

namespace Etherchimp

variable {F : Type}

/-! ## What a client asks for -/

structure ViewConfig where
  hidden : KeyedMap String Bool := ∅
  layoutMode : String := "force"
  maxNodes : Int := 0
  maxEdges : Int := 0
  aggregateThreshold : Int := 0
  expandedSubnets : KeyedMap String Bool := ∅
  fullExpand : KeyedMap String Bool := ∅
  focusCIDR : String := ""
  zoomBand : String := ""
  expandBudget : Int := 0
  raw : Bool := false

/-- A client's position in a stored capture, and the last one rendered. -/
structure TimelineState where
  captureID : Int
  t : Int := 0
  window : Int := 0
  built : Int := 0
  builtWin : Int := 0

abbrev NodeCounts := Int × Int

abbrev EdgeCounts := Int × Int × Int × Int × Int × Int

instance : DecidableEq EdgeCounts := inferInstance

structure Client (F : Type) where
  cfg : ViewConfig := {}
  /-- Force a full styled view at the next tick. -/
  needsFull : Bool := true
  lastNodes : KeyedMap String (ViewNode F) := ∅
  lastEdges : KeyedMap String (ViewEdge F) := ∅
  lastPos : Option (KeyedMap String (F × F)) := none
  /-- The node and edge counters shipped last, once there are any. -/
  lastCounts : Option (KeyedMap String NodeCounts × KeyedMap String EdgeCounts) := none
  lastCountsAt : Int := 0
  timeline : Option TimelineState := none
  lastRawAt : Int := 0

def ViewNode.counts (n : ViewNode F) : NodeCounts := (n.packetCount, n.byteCount)

def ViewEdge.counts (e : ViewEdge F) : EdgeCounts :=
  (e.packetCount, e.byteCount, e.forwardPackets, e.reversePackets, e.forwardBytes, e.reverseBytes)

def ViewNode.pos (n : ViewNode F) : F × F := (n.x, n.y)

/-! ## Messages -/

structure ViewStats where
  nodeCount : Nat
  edgeCount : Nat
  totalPackets : Int

/-- The style delta. -/
structure ViewDelta (F : Type) where
  nodes : List (ViewNode F) := []
  edges : List (ViewEdge F) := []
  removedNodes : List String := []
  removedEdges : List String := []
  trafficFlows : List TrafficFlow := []
  subnetIslands : List (SubnetIsland F) := []
  protocolStats : Option (KeyedMap String Nat) := none
  stats : Option ViewStats := none
  isFull : Bool := false
  /-- One message of a chunked full snapshot. -/
  isPartial : Bool := false
  /-- The message that completes a full snapshot. -/
  fullDone : Bool := false

structure CountsFrame where
  nodes : KeyedMap String NodeCounts
  edges : KeyedMap String EdgeCounts
  stats : ViewStats
  protocolStats : KeyedMap String Nat

def viewStatsFor (view : ViewSnapshot F) : ViewStats where
  nodeCount := view.nodes.length
  edgeCount := view.edges.length
  totalPackets := (view.edges.map ViewEdge.packetCount).sum

/-! ## Style deltas -/

/-- Move one flow to the supernodes of its endpoints; a flow inside one supernode is dropped. -/
def remapFlow (hostToSuper : KeyedMap String String)
    (s : KeyedMap String TrafficFlow × List String) (f : TrafficFlow) :
    KeyedMap String TrafficFlow × List String :=
  let f := { f with
    fromID := (hostToSuper.lookup f.fromID).getD f.fromID
    toID := (hostToSuper.lookup f.toID).getD f.toID }
  if f.fromID = f.toID then s
  else
    let f := { f with edgeID := canonKey f.fromID f.toID }
    match s.1.lookup f.edgeID with
    | some m =>
        (s.1.insert f.edgeID { m with packets := m.packets + f.packets, bytes := m.bytes + f.bytes },
          s.2)
    | none => (s.1.insert f.edgeID f, s.2 ++ [f.edgeID])

/-- The flows of an aggregated view, those between the same supernodes merged. -/
def remapFlows (view : ViewSnapshot F) (flows : List TrafficFlow) : List TrafficFlow :=
  if view.hostToSuper.entries ≠ [] ∧ flows ≠ [] then
    let s := flows.foldl (remapFlow view.hostToSuper) (∅, [])
    s.2.filterMap fun id => s.1.lookup id
  else flows

namespace Client

section Delta

variable [Float64 F]

def diffNodes (c : Client F) (full : Bool) (view : ViewSnapshot F) :
    Delta.Diff String (ViewNode F) :=
  Delta.diff ViewNode.id nodeRenderEqual full c.lastNodes view.nodes

def diffEdges (c : Client F) (full : Bool) (view : ViewSnapshot F) :
    Delta.Diff String (ViewEdge F) :=
  Delta.diff ViewEdge.id edgeRenderEqual full c.lastEdges view.edges

/-- Diff a freshly built view against the last one built for this client. -/
def buildDelta (c : Client F) (view : ViewSnapshot F) (flows : List TrafficFlow) (full : Bool) :
    Option (ViewDelta F) × Client F :=
  let flows := remapFlows view flows
  let n := c.diffNodes full view
  let e := c.diffEdges full view
  let c := { c with lastNodes := n.last, lastEdges := e.last }
  if ¬ full ∧ n.changed = [] ∧ e.changed = [] ∧ n.removed = [] ∧ e.removed = [] ∧ flows = [] then
    (none, c)
  else
    (some
      { nodes := n.changed
        edges := e.changed
        removedNodes := n.removed
        removedEdges := e.removed
        trafficFlows := flows
        subnetIslands := view.subnetIslands
        isFull := full
        stats := if full then some (viewStatsFor view) else none }, c)

end Delta

end Client

/-! ## Chunked full snapshots -/

/-- How many nodes ride each message of a chunked full snapshot. -/
def fullChunkSize : Nat := 150

/-- Put an edge into the first chunk by which both its endpoints have been sent. -/
def placeEdge (chunkOf : KeyedMap String Nat) (chunks : List (ViewDelta F)) (e : ViewEdge F) :
    List (ViewDelta F) :=
  match chunkOf.lookup e.fromID, chunkOf.lookup e.toID with
  | some ci, some cj =>
      chunks.modify (if ci < cj then cj else ci) fun c => { c with edges := c.edges ++ [e] }
  -- an endpoint fell outside the full view
  | _, _ => chunks

/-- The chunk each node rides in. -/
def chunkOf (nodes : List (ViewNode F)) : KeyedMap String Nat :=
  nodes.zipIdx.foldl (fun m r => m.insert r.1.id (r.2 / fullChunkSize)) ∅

def splitDelta (d : ViewDelta F) : List (ViewDelta F) :=
  if ¬ d.isFull ∨ d.nodes.length ≤ fullChunkSize then [{ d with fullDone := d.isFull }]
  else
    let nChunks := (d.nodes.length + fullChunkSize - 1) / fullChunkSize
    let chunks := (List.range nChunks).map fun i =>
      { nodes := (d.nodes.drop (i * fullChunkSize)).take fullChunkSize, isPartial := true }
    let chunks := d.edges.foldl (placeEdge (chunkOf d.nodes)) chunks
    let chunks := chunks.modify 0 fun first =>
      { first with
        isFull := true
        isPartial := true
        removedNodes := d.removedNodes
        removedEdges := d.removedEdges
        trafficFlows := d.trafficFlows
        subnetIslands := d.subnetIslands
        protocolStats := d.protocolStats
        stats := d.stats }
    chunks.modify (nChunks - 1) fun last => { last with fullDone := true }

/-! ## Position frames -/

section Positions

variable [Float64 F]

/-- A position is sent unless the one sent last equals it. -/
def movedFrom (last : Option (F × F)) (pos : F × F) : Bool :=
  match last with
  | none => true
  | some p => !Float64.eq p.1 pos.1 || !Float64.eq p.2 pos.2

def utf8 (s : String) : Wire.Bytes := s.toByteArray.data.toList

/-- Append one record at the offset. -/
def putPosition (s : Wire.Bytes × Nat) (n : ViewNode F) : Option (Wire.Bytes × Nat) := do
  let (buf, off) := s
  let buf ← Wire.write buf off (Wire.le 2 (utf8 n.id).length)
  let off := off + 2
  let (buf, copied) ← Wire.copy buf off (utf8 n.id)
  let off := off + copied
  let buf ← Wire.write buf off (Wire.le 4 (Float64.float32bits n.x).toNat)
  let off := off + 4
  let buf ← Wire.write buf off (Wire.le 4 (Float64.float32bits n.y).toNat)
  let off := off + 4
  return (buf, off)

/-- The binary frame of the moved nodes; nothing when a write goes out of range. -/
def encodePositions (moved : List (ViewNode F)) : Option Wire.Bytes := do
  let size := moved.foldl (fun size n => size + (2 + (utf8 n.id).length + 8)) 3
  let buf := List.replicate size 0
  let buf ← Wire.write buf 0 [1]
  let buf ← Wire.write buf 1 (Wire.le 2 moved.length)
  let (buf, _) ← moved.foldlM putPosition (buf, 3)
  return buf

/-- Encode the positions that changed since the last frame; `none` when nothing moved. -/
def Client.buildPosFrame (c : Client F) (view : ViewSnapshot F) (full : Bool) :
    Option (Option Wire.Bytes) × Client F :=
  let reset :=
    (none, { c with lastPos := some (Delta.upsert ViewNode.id ViewNode.pos ∅ view.nodes) })
  match c.lastPos with
  | none => reset
  | some lastPos =>
      if full then reset
      else
        let r := Delta.refresh ViewNode.id ViewNode.pos movedFrom lastPos view.nodes
        let c := { c with lastPos := some r.2 }
        if r.1 = [] then (none, c) else (some (encodePositions r.1), c)

end Positions

/-! ## Counts frames -/

def countsInterval : Int := 1000000000

/-- The counters that changed since the last frame; counters never sent count as zeros. -/
def Client.buildCountsFrame (c : Client F) (view : ViewSnapshot F) (protoStats : KeyedMap String Nat)
    (full : Bool) (now : Int) : Option CountsFrame × Client F :=
  let reset :=
    (none, { c with
      lastCounts := some (Delta.upsert ViewNode.id ViewNode.counts ∅ view.nodes,
        Delta.upsert ViewEdge.id ViewEdge.counts ∅ view.edges)
      lastCountsAt := now })
  match c.lastCounts with
  | none => reset
  | some (lastNodeCounts, lastEdgeCounts) =>
      if full then reset
      else if now - c.lastCountsAt < countsInterval then (none, c)
      else
        let n := Delta.refresh ViewNode.id ViewNode.counts (Delta.staleFrom 0) lastNodeCounts view.nodes
        let e := Delta.refresh ViewEdge.id ViewEdge.counts (Delta.staleFrom 0) lastEdgeCounts view.edges
        (some
          { nodes := Delta.upsert ViewNode.id ViewNode.counts ∅ n.1
            edges := Delta.upsert ViewEdge.id ViewEdge.counts ∅ e.1
            stats := viewStatsFor view
            protocolStats := protoStats },
          { c with lastCounts := some (n.2, e.2), lastCountsAt := now })

end Etherchimp
