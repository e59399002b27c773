import Etherchimp.Graph.RawTopo
import Etherchimp.Server.Control
import Etherchimp.Server.ViewCache

/-!
# Raw topology streaming

A raw client gets the whole filtered graph as periodic binary snapshots. Within one
tick the flattened topology is shared: a client whose hidden protocols have the key of
an earlier client's is sent what was built for that one.

Wire format, little-endian:

    [u8 type=2][u32 nodeCount]
      nodeCount x [u16 idLen][id utf8][u8 tier][u8 flags]
    [u32 edgeCount]
      edgeCount x [u32 a][u32 b][u8 protoIdx]
-/

namespace Etherchimp

/-- The key of a hidden-protocol set in the tick's cache. -/
def hiddenKey (hidden : KeyedMap String Bool) : String :=
  if hidden.entries = [] then "" else ",".intercalate (trueKeys hidden)

/-- The message before each frame: the protocol table and the stats. -/
structure RawMeta where
  protos : List (String × String)
  stats : ViewStats

def rawMeta (topo : RawTopology) : RawMeta where
  protos := topo.protos.map fun p => (p.name, p.color)
  stats :=
    { nodeCount := topo.ids.length
      edgeCount := topo.edgeA.length
      totalPackets := topo.totalPackets }

section Topology

variable {F : Type} [FloatMath F] (go : Runtime) (raw : RawSnapshot)

/-- The topology a due client is sent, from the cache of the tick or built for it. -/
def rawTopology (cache : KeyedMap String RawTopology) (c : Client F) :
    Except Panic (RawTopology × KeyedMap String RawTopology) :=
  let hidden := c.snapshotCfg.hidden
  match cache.lookup (hiddenKey hidden) with
  | some topo => return (topo, cache)
  | none => do
      let topo ← buildRawTopology F go raw hidden 0
      return (topo, cache.insert (hiddenKey hidden) topo)

/-- The topologies of the due clients, in the order a tick comes to them. -/
def rawTopologies (cache : KeyedMap String RawTopology) :
    List (Client F) → Except Panic (List RawTopology)
  | [] => return []
  | c :: clients => do
      let (topo, cache) ← rawTopology go raw cache c
      return topo :: (← rawTopologies cache clients)

end Topology

/-! ## The frame -/

/-- Write one node at the offset. -/
def putRawNode (s : Wire.Bytes × Nat) (n : String × UInt8 × UInt8) : Option (Wire.Bytes × Nat) := do
  let (buf, off) := s
  let (id, tier, flags) := n
  let buf ← Wire.write buf off (Wire.le 2 (utf8 id).length)
  let off := off + 2
  let (buf, copied) ← Wire.copy buf off (utf8 id)
  let off := off + copied
  let buf ← Wire.write buf off [tier]
  let buf ← Wire.write buf (off + 1) [flags]
  return (buf, off + 2)

/-- Write one edge at the offset. -/
def putRawEdge (s : Wire.Bytes × Nat) (e : UInt32 × UInt32 × UInt8) :
    Option (Wire.Bytes × Nat) := do
  let (buf, off) := s
  let (a, b, proto) := e
  let buf ← Wire.write buf off (Wire.le 4 a.toNat)
  let buf ← Wire.write buf (off + 4) (Wire.le 4 b.toNat)
  let buf ← Wire.write buf (off + 8) [proto]
  return (buf, off + 9)

/-- The bytes a frame takes. -/
def rawFrameSize (t : RawTopology) : Nat :=
  t.ids.foldl (fun size id => size + (2 + (utf8 id).length + 2)) (1 + 4 + 4 + t.edgeA.length * 9)

/-- Row `i` of the node arrays; nothing past the end of one of them. -/
def RawTopology.node (t : RawTopology) (i : Nat) : Option (String × UInt8 × UInt8) := do
  return (← t.ids[i]?, ← t.tiers[i]?, ← t.flags[i]?)

def RawTopology.edge (t : RawTopology) (i : Nat) : Option (UInt32 × UInt32 × UInt8) := do
  return (← t.edgeA[i]?, ← t.edgeB[i]?, ← t.edgeProto[i]?)

/-- The binary frame; nothing when a read or a write goes out of range. -/
def encodeRawFrame (t : RawTopology) : Option Wire.Bytes := do
  let buf := List.replicate (rawFrameSize t) 0
  let buf ← Wire.write buf 0 [2]
  let buf ← Wire.write buf 1 (Wire.le 4 t.ids.length)
  let (buf, off) ← (List.range t.ids.length).foldlM (fun s i => do putRawNode s (← t.node i)) (buf, 5)
  let buf ← Wire.write buf off (Wire.le 4 t.edgeA.length)
  let (buf, off) ←
    (List.range t.edgeA.length).foldlM (fun s i => do putRawEdge s (← t.edge i)) (buf, off + 4)
  return buf.take off

end Etherchimp
