import Etherchimp.Graph.Layout
import Etherchimp.Graph.Ops
import Etherchimp.Lib.Panic
import Etherchimp.Lib.Runtime

/-!
# The raw topology

The graph of a raw client, flattened: no layout, no aggregation, and edges that
name their endpoints by index. Hidden protocols and edges with an unknown endpoint
are left out first, then the quietest nodes beyond the cap, and the nodes get their
indices as the remaining edges are written.
-/

namespace Etherchimp

open Panic

structure RawTopology where
  ids : List String := []
  /-- 0..4 traffic tier, by the logarithm. -/
  tiers : List UInt8 := []
  /-- Bit 0: group. -/
  flags : List UInt8 := []
  edgeA : List UInt32 := []
  edgeB : List UInt32 := []
  /-- Index into the protocol table. -/
  edgeProto : List UInt8 := []
  protos : List Protocol := []
  totalPackets : Nat := 0
  deriving DecidableEq

def defaultRawMaxNodes : Int := 150000

namespace RawTopo

/-! ## What is visible -/

/-- The node behind each id; of two with one id the later. -/
def nodeByID (nodes : List Node) : KeyedMap String Node :=
  nodes.foldl (fun m n => m.insert n.ip n) ∅

structure Visible where
  edges : List Edge := []
  packetsByNode : KeyedMap String Nat := ∅
  total : Nat := 0

def addPackets (m : KeyedMap String Nat) (id : String) (packets : Nat) : KeyedMap String Nat :=
  m.insert id ((m.lookup id).getD 0 + packets)

/-- Take an edge in, unless it is hidden or an endpoint is missing. -/
def see (nodes : KeyedMap String Node) (hidden : KeyedMap String Bool) (s : Visible) (e : Edge) :
    Visible :=
  if hidden.lookup e.protocol.name = some true then s
  else if nodes.lookup e.fromID = none ∨ nodes.lookup e.toID = none then s
  else
    let packets := addPackets s.packetsByNode e.fromID e.packetCount
    { edges := s.edges ++ [e]
      packetsByNode := if e.toID ≠ e.fromID then addPackets packets e.toID e.packetCount else packets
      total := s.total + e.packetCount }

/-- A node of no visible edge is a candidate too. -/
def seed (m : KeyedMap String Nat) (n : Node) : KeyedMap String Nat :=
  if (m.lookup n.ip).isSome then m else m.insert n.ip n.packetCount

/-- Drop the quietest candidates beyond the cap. -/
def cap (go : Runtime) (maxNodes : Nat) (m : KeyedMap String Nat) : KeyedMap String Nat :=
  if maxNodes < m.entries.length then
    let ids := (go.rangeOf m).map fun e => e.1
    let packets id := (m.lookup id).getD 0
    m.eraseAll ((go.sortSlice (fun a b => packets b < packets a) ids).drop maxNodes)
  else m

/-! ## Writing it out -/

structure Emit where
  t : RawTopology
  index : KeyedMap String UInt32 := ∅
  protoIdx : KeyedMap String UInt8 := ∅

/-- The nodes by id, the packets of the candidates that are kept, and the scale of the tiers. -/
structure Capped (F : Type) where
  nodes : KeyedMap String Node
  packets : KeyedMap String Nat
  logMax : F

section Emit

variable {F : Type} [FloatMath F]

open FloatMath Float64

def Capped.tier (k : Capped F) (id : String) : UInt8 :=
  if lt (ofInt 0) k.logMax then
    let share := div (log1p (ofInt ((k.packets.lookup id).getD 0))) k.logMax
    UInt8.ofNat (trunc (FloatMath.min (ofInt 4) (floor (mul share (decimal 4999 3))))).toNat
  else 0

/-- The index of a node, which is written when it has none. -/
def addNode (k : Capped F) (s : Emit) (id : String) : Except Panic (UInt32 × Emit) :=
  match s.index.lookup id with
  | some idx => return (idx, s)
  | none => do
      let idx := UInt32.ofNat s.t.ids.length
      let n ← deref (k.nodes.lookup id)
      return (idx,
        { s with
          index := s.index.insert id idx
          t := { s.t with
            ids := s.t.ids ++ [id]
            tiers := s.t.tiers ++ [k.tier id]
            flags := s.t.flags ++ [if n.isGroup then 1 else 0] } })

/-- The index of a protocol; a full table folds it into the first entry. -/
def addProto (s : Emit) (p : Protocol) : UInt8 × Emit :=
  match s.protoIdx.lookup p.name with
  | some idx => (idx, s)
  | none =>
      if 255 ≤ s.t.protos.length then (0, s)
      else
        let idx := UInt8.ofNat s.t.protos.length
        (idx,
          { s with
            protoIdx := s.protoIdx.insert p.name idx
            t := { s.t with protos := s.t.protos ++ [p] } })

/-- Write an edge, unless an endpoint was dropped. -/
def emitEdge (k : Capped F) (s : Emit) (e : Edge) : Except Panic Emit :=
  if k.packets.lookup e.fromID = none ∨ k.packets.lookup e.toID = none then return s
  else do
    let (p, s) := addProto s e.protocol
    let (a, s) ← addNode k s e.fromID
    let s := { s with t := { s.t with edgeA := s.t.edgeA ++ [a] } }
    let (b, s) ← addNode k s e.toID
    let s := { s with t := { s.t with edgeB := s.t.edgeB ++ [b] } }
    return { s with t := { s.t with edgeProto := s.t.edgeProto ++ [p] } }

/-- Write a node that no edge has written. -/
def emitNode (k : Capped F) (s : Emit) (n : Node) : Except Panic Emit :=
  if k.packets.lookup n.ip = none then return s else return (← addNode k s n.ip).2

end Emit

end RawTopo

open RawTopo

/-- Filter the snapshot by hidden protocols and flatten it to indexed arrays. -/
def buildRawTopology (F : Type) [FloatMath F] (go : Runtime) (raw : RawSnapshot)
    (hidden : KeyedMap String Bool) (maxNodes : Int) : Except Panic RawTopology := do
  let maxNodes := if maxNodes ≤ 0 then defaultRawMaxNodes else maxNodes
  let nodes := nodeByID raw.nodes
  let v := raw.edges.foldl (see nodes hidden) {}
  -- without a filter every live node is a candidate
  let packets := if hidden.entries = [] then raw.nodes.foldl seed v.packetsByNode else v.packetsByNode
  let packets := cap go maxNodes.toNat packets
  let maxPackets := (packets.entries.map fun e => e.2).foldl max 0
  let k : Capped F :=
    { nodes := nodes, packets := packets, logMax := FloatMath.log1p (Float64.ofInt maxPackets) }
  let s ← v.edges.foldlM (emitEdge k) { t := { totalPackets := v.total } }
  let s ← raw.nodes.foldlM (emitNode k) s
  return s.t

end Etherchimp
