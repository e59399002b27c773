import Etherchimp.Graph.Address
import Etherchimp.Capture.Packet
import Etherchimp.Lib.Cells

/-!
# The store's in-memory aggregates

`aggregator.apply` folds every recorded packet into three maps: nodes and edges,
cumulative and marked dirty, and flow buckets, which are deltas since the last
flush. `snapshot` moves what a flush has to write out of the aggregator and
`dropCapture` forgets a finished capture.
-/

namespace Etherchimp

/-- One processed packet. `ts` is in nanoseconds since the epoch. -/
structure PacketEvent where
  captureID : Int
  ts : Int := 0
  src : String
  dst : String
  srcHost : String := ""
  dstHost : String := ""
  srcPort : UInt16 := 0
  dstPort : UInt16 := 0
  proto : String := "TCP"
  length : Nat
  vlan : UInt16 := 0
  pcapOffset : Int := -1
  deriving DecidableEq

namespace PacketEvent

/-- `Time.Unix`, `Time.UnixMilli` and `Time.UnixMicro`, which round down. -/
def unix (ev : PacketEvent) : Int := ev.ts / 1000000000
def unixMilli (ev : PacketEvent) : Int := ev.ts / 1000000
def unixMicro (ev : PacketEvent) : Int := ev.ts / 1000

/-- The edge an event is counted on: its id and its endpoints in canonical order. -/
def edge (ev : PacketEvent) : String × String × String :=
  if ev.src < ev.dst then (ev.src ++ edgeIDSep ++ ev.dst, ev.src, ev.dst)
  else (ev.dst ++ edgeIDSep ++ ev.src, ev.dst, ev.src)

def edgeID (ev : PacketEvent) : String := ev.edge.1

def isForward (ev : PacketEvent) : Bool := ev.src = ev.edge.2.1

/-- The store names edges as the graph does. -/
theorem edge_eq (ev : PacketEvent) : ev.edge = getCanonicalEdgeID ev.src ev.dst := rfl

end PacketEvent

/-! ## Aggregates -/

structure NodeKey where
  captureID : Int
  id : String
  deriving DecidableEq

structure EdgeKey where
  captureID : Int
  id : String
  deriving DecidableEq

structure BucketKey where
  captureID : Int
  /-- Floored to the bucket width. -/
  ts : Int
  edgeID : String
  proto : String
  deriving DecidableEq

structure NodeAgg where
  hostname : String := ""
  packets : Nat := 0
  bytes : Nat := 0
  first : Int
  last : Int := 0

structure EdgeAgg where
  fromID : String
  toID : String
  proto : String
  packets : Nat := 0
  bytes : Nat := 0
  fwdP : Nat := 0
  revP : Nat := 0
  fwdB : Nat := 0
  revB : Nat := 0
  first : Int
  last : Int := 0

/-- A delta since the last flush. -/
structure BucketAgg where
  proto : String
  packets : Nat := 0
  bytes : Nat := 0
  fwdP : Nat := 0
  revP : Nat := 0
  fwdB : Nat := 0
  revB : Nat := 0

structure Aggregator where
  bucketSecs : Int
  nodes : KeyedMap NodeKey NodeAgg
  edges : KeyedMap EdgeKey EdgeAgg
  buckets : KeyedMap BucketKey BucketAgg
  dirtyNodes : KeyedMap NodeKey Unit
  dirtyEdges : KeyedMap EdgeKey Unit
  /-- Packet rows dropped under backpressure. -/
  dropped : Nat

def newAggregator (bucketSecs : Int) : Aggregator where
  bucketSecs := bucketSecs
  nodes := ∅
  edges := ∅
  buckets := ∅
  dirtyNodes := ∅
  dirtyEdges := ∅
  dropped := 0

/-- The bucket an event falls into; Go's division truncates. -/
def PacketEvent.bucket (ev : PacketEvent) (bucketSecs : Int) : BucketKey :=
  ⟨ev.captureID, ev.unix.tdiv bucketSecs * bucketSecs, ev.edgeID, ev.proto⟩

/-- A node aggregate after one more packet. -/
def NodeAgg.count (n : NodeAgg) (id host : String) (length : Nat) (ts : Int) : NodeAgg :=
  { n with
    hostname := if host ≠ "" ∧ host ≠ id then host else n.hostname
    packets := n.packets + 1
    bytes := n.bytes + length
    last := ts }

/-- The aggregate of an edge not seen before. -/
def newEdgeAgg (ev : PacketEvent) : EdgeAgg :=
  { fromID := ev.edge.2.1, toID := ev.edge.2.2, proto := ev.proto, first := ev.unixMilli }

/-- An edge aggregate after one more packet. -/
def EdgeAgg.count (reg : Registry) (e : EdgeAgg) (ev : PacketEvent) : EdgeAgg :=
  let e := { e with packets := e.packets + 1, bytes := e.bytes + ev.length, last := ev.unixMilli }
  let e :=
    if ev.isForward then { e with fwdP := e.fwdP + 1, fwdB := e.fwdB + ev.length }
    else { e with revP := e.revP + 1, revB := e.revB + ev.length }
  if isGenericName reg ev.proto then e else { e with proto := ev.proto }

/-- A bucket after one more packet. -/
def BucketAgg.count (b : BucketAgg) (ev : PacketEvent) : BucketAgg :=
  let b := { b with packets := b.packets + 1, bytes := b.bytes + ev.length }
  if ev.isForward then { b with fwdP := b.fwdP + 1, fwdB := b.fwdB + ev.length }
  else { b with revP := b.revP + 1, revB := b.revB + ev.length }

namespace Aggregator

/-- Count one endpoint of an event on its node. -/
def countNode (a : Aggregator) (ev : PacketEvent) (id host : String) : Aggregator :=
  let nk : NodeKey := ⟨ev.captureID, id⟩
  let n := (a.nodes.lookup nk).getD { first := ev.unixMilli }
  { a with
    nodes := a.nodes.insert nk (n.count id host ev.length ev.unixMilli)
    dirtyNodes := a.dirtyNodes.insert nk () }

/-- Count an event on its edge. -/
def countEdge (reg : Registry) (a : Aggregator) (ev : PacketEvent) : Aggregator :=
  let ek : EdgeKey := ⟨ev.captureID, ev.edgeID⟩
  let e := (a.edges.lookup ek).getD (newEdgeAgg ev)
  { a with
    edges := a.edges.insert ek (e.count reg ev)
    dirtyEdges := a.dirtyEdges.insert ek () }

/-- Count an event in its flow bucket, which carries the packet's own protocol. -/
def countBucket (a : Aggregator) (ev : PacketEvent) : Aggregator :=
  let bk := ev.bucket a.bucketSecs
  let b := (a.buckets.lookup bk).getD { proto := ev.proto }
  { a with buckets := a.buckets.insert bk (b.count ev) }

/-- Fold one packet into the aggregates. -/
def apply (reg : Registry) (a : Aggregator) (ev : PacketEvent) : Aggregator :=
  let a := a.countNode ev ev.src ev.srcHost
  let a := a.countNode ev ev.dst ev.dstHost
  (a.countEdge reg ev).countBucket ev

def droppedPacketRow (a : Aggregator) : Aggregator := { a with dropped := a.dropped + 1 }

end Aggregator

/-- What one flush has to write. -/
structure FlushBatch where
  nodes : KeyedMap NodeKey NodeAgg
  edges : KeyedMap EdgeKey EdgeAgg
  buckets : KeyedMap BucketKey BucketAgg
  dropped : Nat

/-- No row to write. -/
def FlushBatch.Empty (fb : FlushBatch) : Prop :=
  fb.nodes.entries = [] ∧ fb.edges.entries = [] ∧ fb.buckets.entries = []

instance (fb : FlushBatch) : Decidable fb.Empty :=
  have {α : Type} (l : List α) : Decidable (l = []) := decidable_of_iff _ List.isEmpty_iff
  inferInstanceAs (Decidable (_ ∧ _ ∧ _))

namespace Aggregator

/--
Move the dirty state out: dirty nodes and edges are copied, with the cumulative
values kept, and the buckets are taken wholesale and reset.
-/
def snapshot (a : Aggregator) : FlushBatch × Aggregator :=
  ({ nodes := KeyedMap.copyKeys a.nodes a.dirtyNodes.keys
     edges := KeyedMap.copyKeys a.edges a.dirtyEdges.keys
     buckets := a.buckets
     dropped := a.dropped },
   { a with dropped := 0, buckets := ∅, dirtyNodes := ∅, dirtyEdges := ∅ })

/-- Forget the nodes and edges of a finished capture; its buckets stay. -/
def dropCapture (a : Aggregator) (id : Int) : Aggregator :=
  let nks := a.nodes.keys.filter fun k => k.captureID = id
  let eks := a.edges.keys.filter fun k => k.captureID = id
  { a with
    nodes := KeyedMap.eraseAll a.nodes nks
    dirtyNodes := KeyedMap.eraseAll a.dirtyNodes nks
    edges := KeyedMap.eraseAll a.edges eks
    dirtyEdges := KeyedMap.eraseAll a.dirtyEdges eks }

end Aggregator

/-! ## What an event weighs -/

/-- Packets and bytes. -/
abbrev Load := Nat × Nat

/-- Packets and bytes, then both again forwards and backwards. -/
abbrev Counters := Load × Load × Load

namespace PacketEvent

variable (ev : PacketEvent)

def load : Load := (1, ev.length)

def counters : Counters :=
  (ev.load, if ev.isForward then (ev.load, 0) else (0, ev.load))

end PacketEvent

def NodeAgg.load (n : NodeAgg) : Load := (n.packets, n.bytes)

def EdgeAgg.counters (e : EdgeAgg) : Counters :=
  ((e.packets, e.bytes), (e.fwdP, e.fwdB), (e.revP, e.revB))

def BucketAgg.counters (b : BucketAgg) : Counters :=
  ((b.packets, b.bytes), (b.fwdP, b.fwdB), (b.revP, b.revB))

theorem NodeAgg.count_load (n : NodeAgg) (ev : PacketEvent) (id host : String) :
    (n.count id host ev.length ev.unixMilli).load = n.load + ev.load := rfl

theorem EdgeAgg.count_counters (reg : Registry) (e : EdgeAgg) (ev : PacketEvent) :
    (e.count reg ev).counters = e.counters + ev.counters := by
  unfold EdgeAgg.count PacketEvent.counters
  dsimp only
  cases ev.isForward <;> cases isGenericName reg ev.proto <;> rfl

theorem EdgeAgg.count_ends (reg : Registry) (e : EdgeAgg) (ev : PacketEvent) :
    (e.count reg ev).fromID = e.fromID ∧ (e.count reg ev).toID = e.toID := by
  unfold EdgeAgg.count
  dsimp only
  cases ev.isForward <;> cases isGenericName reg ev.proto <;> exact ⟨rfl, rfl⟩

theorem BucketAgg.count_counters (b : BucketAgg) (ev : PacketEvent) :
    (b.count ev).counters = b.counters + ev.counters := by
  unfold BucketAgg.count PacketEvent.counters
  dsimp only
  cases ev.isForward <;> rfl

theorem BucketAgg.count_proto (b : BucketAgg) (ev : PacketEvent) :
    (b.count ev).proto = b.proto := by
  unfold BucketAgg.count
  dsimp only
  cases ev.isForward <;> rfl

/-! ## What the operations do to the counters -/

namespace PacketEvent

/-- The two entries an event makes in the node table. -/
def nodeEntries (ev : PacketEvent) : List (NodeKey × Load) :=
  [(⟨ev.captureID, ev.src⟩, ev.load), (⟨ev.captureID, ev.dst⟩, ev.load)]

/-- The entry an event makes in the edge table. -/
def edgeEntry (ev : PacketEvent) : EdgeKey × Counters := (⟨ev.captureID, ev.edgeID⟩, ev.counters)

end PacketEvent

namespace Aggregator

open Tally

variable (reg : Registry) (a : Aggregator) (ev : PacketEvent)

theorem countNode_nodes (id host : String) :
    counters NodeAgg.load (a.countNode ev id host).nodes
      = bump (counters NodeAgg.load a.nodes) ⟨ev.captureID, id⟩ ev.load :=
  counters_insert a.nodes _ (d := { first := ev.unixMilli }) rfl
    fun n => NodeAgg.count_load n ev id host

theorem apply_nodes :
    counters NodeAgg.load (a.apply reg ev).nodes
      = bump (bump (counters NodeAgg.load a.nodes) ⟨ev.captureID, ev.src⟩ ev.load)
          ⟨ev.captureID, ev.dst⟩ ev.load := by
  rw [← countNode_nodes a ev ev.src ev.srcHost, ← countNode_nodes _ ev ev.dst ev.dstHost]
  rfl

/-- The edge counters, or any reading of them that adds up. -/
theorem apply_edges {M : Type} [AddCommMonoid M] (π : Counters →+ M) :
    counters (fun e : EdgeAgg => π e.counters) (a.apply reg ev).edges
      = bump (counters (fun e => π e.counters) a.edges) ⟨ev.captureID, ev.edgeID⟩
          (π ev.counters) := by
  have hadd : ∀ e : EdgeAgg, π (e.count reg ev).counters = π e.counters + π ev.counters := by
    intro e
    rw [EdgeAgg.count_counters, map_add]
  exact counters_insert (f := fun e : EdgeAgg => π e.counters) (g := fun e => e.count reg ev)
    a.edges _ (d := newEdgeAgg ev) (map_zero π) hadd

theorem apply_buckets :
    counters BucketAgg.counters (a.apply reg ev).buckets
      = bump (counters BucketAgg.counters a.buckets) (ev.bucket a.bucketSecs) ev.counters :=
  counters_insert a.buckets _ (d := { proto := ev.proto }) rfl
    fun b => BucketAgg.count_counters b ev

@[simp] theorem apply_bucketSecs : (a.apply reg ev).bucketSecs = a.bucketSecs := rfl

/-- The nodes of an event are dirty after it. -/
theorem apply_dirtyNodes (k : NodeKey) :
    k ∈ (a.apply reg ev).dirtyNodes.keys ↔ k ∈ a.dirtyNodes.keys ∨ k ∈ ev.nodeEntries.map Prod.fst := by
  show k ∈ ((a.dirtyNodes.insert _ ()).insert _ ()).keys ↔ _
  rw [← AList.mem_keys, AList.mem_insert, AList.mem_insert, AList.mem_keys]
  simp only [PacketEvent.nodeEntries, List.map_cons, List.map_nil, List.mem_cons,
    List.not_mem_nil, or_false]
  exact ⟨fun h => h.elim (Or.inr ∘ Or.inr) fun h => h.elim (Or.inr ∘ Or.inl) Or.inl,
    fun h => h.elim (Or.inr ∘ Or.inr) fun h => h.elim (Or.inr ∘ Or.inl) Or.inl⟩

theorem apply_dirtyEdges (k : EdgeKey) :
    k ∈ (a.apply reg ev).dirtyEdges.keys ↔ k ∈ a.dirtyEdges.keys ∨ k = ev.edgeEntry.1 := by
  show k ∈ (a.dirtyEdges.insert _ ()).keys ↔ _
  rw [← AList.mem_keys, AList.mem_insert, AList.mem_keys]
  exact or_comm

/-- A bucket's protocol is its key's. -/
def ProtoKeyed (buckets : KeyedMap BucketKey BucketAgg) : Prop :=
  ∀ k b, buckets.lookup k = some b → b.proto = k.proto

theorem apply_protoKeyed (h : ProtoKeyed a.buckets) : ProtoKeyed (a.apply reg ev).buckets := by
  intro k b hl
  have hl : (a.buckets.insert _ _).lookup k = some b := hl
  rw [KeyedMap.lookup_insert_eq] at hl
  split at hl
  · rename_i hk
    rw [Option.some.injEq] at hl
    rw [← hl, hk]
    show (BucketAgg.count ((a.buckets.lookup (ev.bucket a.bucketSecs)).getD _) ev).proto = _
    rw [BucketAgg.count_proto]
    cases hb : a.buckets.lookup (ev.bucket a.bucketSecs) with
    | none => rfl
    | some b => exact h _ b hb
  · exact h k b hl

/-- The edge aggregates keep the endpoints of their events. -/
theorem apply_edgeEnds {P : EdgeKey → String → String → Prop}
    (h : ∀ k e, a.edges.lookup k = some e → P k e.fromID e.toID)
    (hev : P ⟨ev.captureID, ev.edgeID⟩ ev.edge.2.1 ev.edge.2.2) :
    ∀ k e, (a.apply reg ev).edges.lookup k = some e → P k e.fromID e.toID := by
  intro k e hl
  have hl : (a.edges.insert _ _).lookup k = some e := hl
  rw [KeyedMap.lookup_insert_eq] at hl
  split at hl
  · rename_i hk
    rw [Option.some.injEq] at hl
    rw [← hl, hk]
    show P _ (EdgeAgg.count reg ((a.edges.lookup ⟨ev.captureID, ev.edgeID⟩).getD
      (newEdgeAgg ev)) ev).fromID (EdgeAgg.count reg _ ev).toID
    rw [(EdgeAgg.count_ends reg _ ev).1, (EdgeAgg.count_ends reg _ ev).2]
    show P _ _ ((a.edges.lookup ⟨ev.captureID, ev.edgeID⟩).getD (newEdgeAgg ev)).toID
    cases he : a.edges.lookup ⟨ev.captureID, ev.edgeID⟩ with
    | none => exact hev
    | some e₀ => exact h _ e₀ he
  · exact h k e hl

end Aggregator

end Etherchimp
