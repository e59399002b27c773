import Etherchimp.Graph.Ops
import Etherchimp.Store.Writer

/-!
# What is read back from the store

`LoadAggregates` returns the cumulative node and edge rows of a capture.
`WindowAggregates` rebuilds both for a time window from the flow buckets: one row
an edge and protocol comes back from the query, an edge gathers the rows under
its id, and a node the rows of its edges, whose endpoints are cut out of the id.

A query without an order may return its rows in any; here it is the map's.
-/

namespace Etherchimp

structure StoredNode where
  id : String
  hostname : String
  packetCount : Nat
  byteCount : Nat
  firstSeen : Int := 0
  lastSeen : Int := 0

structure StoredEdge where
  id : String
  fromID : String
  toID : String
  protocol : String
  packetCount : Nat := 0
  byteCount : Nat := 0
  forwardPackets : Nat := 0
  reversePackets : Nat := 0
  forwardBytes : Nat := 0
  reverseBytes : Nat := 0
  firstSeen : Int := 0
  lastSeen : Int := 0

/-- `BulkNodes`: the aggregate rows in the shape the graph loads. -/
def StoredNode.bulk (n : StoredNode) : BulkNode :=
  ⟨n.id, n.hostname, n.packetCount, n.byteCount⟩

/-- `BulkEdges`. -/
def StoredEdge.bulk (e : StoredEdge) : BulkEdge :=
  ⟨e.fromID, e.toID, e.protocol, e.packetCount, e.byteCount, e.forwardPackets, e.reversePackets,
    e.forwardBytes, e.reverseBytes⟩

/-- Parse an edge id back into its endpoints, at the first separator. -/
def splitEdgeID (id : String) : Option (String × String) :=
  match Separator.cut edgeIDSep.toList id.toList with
  | some (a, b) => if a ≠ [] ∧ b ≠ [] then some (String.ofList a, String.ofList b) else none
  | none => none

/-! ## The cumulative rows -/

def NodeRow.stored (r : NodeRow) (id : String) : StoredNode :=
  { id := id, hostname := r.hostname, packetCount := r.packetCount, byteCount := r.byteCount
    firstSeen := r.firstSeen, lastSeen := r.lastSeen }

def EdgeRow.stored (r : EdgeRow) (id : String) : StoredEdge :=
  { id := id, fromID := r.fromID, toID := r.toID, protocol := r.protocol
    packetCount := r.packetCount, byteCount := r.byteCount
    forwardPackets := r.fwdPackets, reversePackets := r.revPackets
    forwardBytes := r.fwdBytes, reverseBytes := r.revBytes
    firstSeen := r.firstSeen, lastSeen := r.lastSeen }

namespace DB

/-- `SELECT ... FROM nodes WHERE capture_id = ?` -/
def nodeRows (db : DB) (captureID : Int) : List StoredNode :=
  (db.nodes.entries.filter fun e => e.1.captureID = captureID).map fun e => e.2.stored e.1.id

/-- `SELECT ... FROM edges WHERE capture_id = ?` -/
def edgeRows (db : DB) (captureID : Int) : List StoredEdge :=
  (db.edges.entries.filter fun e => e.1.captureID = captureID).map fun e => e.2.stored e.1.id

def loadAggregates (db : DB) (captureID : Int) : List StoredNode × List StoredEdge :=
  (db.nodeRows captureID, db.edgeRows captureID)

/-! ## The buckets of a window -/

/-- The buckets with a time in `[lo, hi)`. -/
def bucketsIn (db : DB) (captureID lo hi : Int) : List (BucketKey × BucketRow) :=
  (db.flowBuckets.entries.filter fun e =>
    e.1.captureID = captureID ∧ lo ≤ e.1.ts ∧ e.1.ts < hi).map fun e => (e.1, e.2)

/-- The first and the last bucket of a capture, both 0 when it has none. -/
def bucketBounds (db : DB) (captureID : Int) : Int × Int :=
  let ts := (db.flowBuckets.entries.filter fun e => e.1.captureID = captureID).map fun e => e.1.ts
  (ts.min?.getD 0, ts.max?.getD 0)

/-- One column by column `SUM`. -/
def sumRow (old : Option BucketRow) (r : BucketRow) : BucketRow :=
  match old with
  | none => r
  | some s =>
      ⟨s.packets + r.packets, s.bytes + r.bytes, s.fwdPackets + r.fwdPackets,
        s.revPackets + r.revPackets, s.fwdBytes + r.fwdBytes, s.revBytes + r.revBytes⟩

/-- `SELECT edge_id, protocol, SUM(...) ... GROUP BY edge_id, protocol` -/
def windowRows (db : DB) (captureID lo hi : Int) : KeyedMap (String × String) BucketRow :=
  Tally.collect sumRow
    ((db.bucketsIn captureID lo hi).map fun e => ((e.1.edgeID, e.1.proto), e.2))

end DB

/-! ## Scanning the rows -/

/-- The locals of the scan. -/
structure WindowScan where
  nodeAggs : KeyedMap String (Nat × Nat) := ∅
  edgeByID : KeyedMap String StoredEdge := ∅
  /-- The packets that an edge's current protocol carried. -/
  protoPackets : KeyedMap String Nat := ∅
  order : List String := []

namespace WindowScan

/-- The edge a row is added to: the one there, or a fresh one if its id splits. -/
def edgeFor (s : WindowScan) (id proto : String) : Option StoredEdge :=
  match s.edgeByID.lookup id with
  | some e => some e
  | none => (splitEdgeID id).map fun ends =>
      { id := id, fromID := ends.1, toID := ends.2, protocol := proto }

/-- The packets behind the edge's protocol before this row; a fresh edge has the row's own. -/
def carried (s : WindowScan) (id : String) (r : BucketRow) : Nat :=
  match s.edgeByID.lookup id with
  | some _ => (s.protoPackets.lookup id).getD 0
  | none => r.packets

/-- Add a row's counters to an edge. -/
def addRow (e : StoredEdge) (r : BucketRow) : StoredEdge :=
  { e with
    packetCount := e.packetCount + r.packets
    byteCount := e.byteCount + r.bytes
    forwardPackets := e.forwardPackets + r.fwdPackets
    reversePackets := e.reversePackets + r.revPackets
    forwardBytes := e.forwardBytes + r.fwdBytes
    reverseBytes := e.reverseBytes + r.revBytes }

/-- A specific protocol beats a generic one; within a class the busiest wins. -/
def dominates (reg : Registry) (cur new : String) (packets curPackets : Nat) : Bool :=
  let curGeneric := isGenericName reg cur
  let newGeneric := isGenericName reg new
  curGeneric && !newGeneric || curGeneric == newGeneric && decide (curPackets < packets)

/-- Count a row on one endpoint. -/
def addNode (aggs : KeyedMap String (Nat × Nat)) (r : BucketRow) (nid : String) :
    KeyedMap String (Nat × Nat) :=
  let nt := (aggs.lookup nid).getD (0, 0)
  aggs.insert nid (nt.1 + r.packets, nt.2 + r.bytes)

/-- One turn of the scan; a row whose id does not split is skipped. -/
def scan (reg : Registry) (s : WindowScan) (row : (String × String) × BucketRow) : WindowScan :=
  let ((id, proto), r) := row
  match s.edgeFor id proto with
  | none => s
  | some e =>
      let e := addRow e r
      let curPackets := s.carried id r
      let wins := dominates reg e.protocol proto r.packets curPackets
      { nodeAggs := [e.fromID, e.toID].foldl (addNode · r) s.nodeAggs
        edgeByID := s.edgeByID.insert id (if wins then { e with protocol := proto } else e)
        protoPackets := s.protoPackets.insert id (if wins then r.packets else curPackets)
        order := if s.edgeByID.lookup id = none then s.order ++ [id] else s.order }

end WindowScan

/-- The names of the nodes that have one. -/
def hostnamesOf (rows : List StoredNode) : KeyedMap String String :=
  rows.foldl (fun m n => if n.hostname ≠ "" then m.insert n.id n.hostname else m) ∅

/-- What the scan gathered; there is nothing to return when no row was usable. -/
def WindowScan.result (s : WindowScan) (hostnames : KeyedMap String String) :
    List StoredNode × List StoredEdge :=
  if s.nodeAggs.entries = [] then ([], [])
  else
    (s.nodeAggs.entries.map fun e =>
        { id := e.1, hostname := (hostnames.lookup e.1).getD ""
          packetCount := e.2.1, byteCount := e.2.2 },
      s.order.filterMap s.edgeByID.lookup)

namespace DB

/-- Scan the given rows of the window query. -/
def scanRows (reg : Registry) (db : DB) (captureID : Int)
    (rows : List ((String × String) × BucketRow)) : List StoredNode × List StoredEdge :=
  (rows.foldl (WindowScan.scan reg) {}).result (hostnamesOf (db.nodeRows captureID))

/-- Node and edge aggregates for the window `[lo, hi)`. -/
def windowAggregates (reg : Registry) (db : DB) (captureID lo hi : Int) :
    List StoredNode × List StoredEdge :=
  db.scanRows reg captureID ((db.windowRows captureID lo hi).entries.map fun e => (e.1, e.2))

end DB

/-! ## The packet index -/

/-- A row of `packets` under its primary key. -/
structure IndexedRow where
  id : Nat
  row : PacketRow
  deriving DecidableEq

/-- The table `packets` in the order of its primary key. -/
structure PacketTable where
  rows : List IndexedRow
  sorted : rows.Pairwise fun a b => a.id < b.id
  positive : ∀ r ∈ rows, 0 < r.id

namespace PacketTable

/-- The largest key in use, 0 in an empty table. -/
def maxID (t : PacketTable) : Nat := (t.rows.getLast?.map (·.id)).getD 0

theorem le_maxID (t : PacketTable) {r : IndexedRow} (hr : r ∈ t.rows) : r.id ≤ t.maxID := by
  unfold maxID
  rcases List.eq_nil_or_concat' t.rows with hnil | ⟨front, last, hrows⟩
  · rw [hnil] at hr
    cases hr
  · have hs := t.sorted
    rw [hrows, List.pairwise_append] at hs
    rw [hrows, List.mem_append, List.mem_singleton] at hr
    rw [hrows, List.getLast?_concat]
    rcases hr with hr | rfl
    · exact Nat.le_of_lt (hs.2.2 r hr last (List.mem_singleton_self _))
    · exact Nat.le_refl _

/-- `INSERT INTO packets`: the row gets the key after the largest. -/
def insert (t : PacketTable) (row : PacketRow) : PacketTable where
  rows := t.rows ++ [⟨t.maxID + 1, row⟩]
  sorted := by
    rw [List.pairwise_append]
    refine ⟨t.sorted, List.pairwise_singleton _ _, fun a ha b hb => ?_⟩
    rw [List.mem_singleton.mp hb]
    exact Nat.lt_succ_of_le (t.le_maxID ha)
  positive := by
    intro r hr
    rcases List.mem_append.mp hr with hr | hr
    · exact t.positive r hr
    · rw [List.mem_singleton.mp hr]
      exact Nat.succ_pos _

/-- What `QueryPackets` selects by: a bound of 0 and an empty node do not restrict. -/
def selects (captureID fromMicros toMicros : Int) (node : String) (r : IndexedRow) : Bool :=
  r.row.captureID = captureID
    && (fromMicros ≤ 0 || fromMicros ≤ r.row.ts)
    && (toMicros ≤ 0 || r.row.ts < toMicros)
    && (node = "" || (r.row.src = node || r.row.dst = node))

/--
Indexed packets of a capture, bounded by time, scoped to a node, and paged by
`sinceID`, which does not restrict when it is 0.
-/
def queryPackets (t : PacketTable) (captureID fromMicros toMicros : Int) (node : String)
    (sinceID : Nat) (limit : Int) : List IndexedRow :=
  let limit := if limit ≤ 0 ∨ 1000 < limit then 200 else limit.toNat
  (t.rows.filter fun r =>
    selects captureID fromMicros toMicros node r && (sinceID = 0 || sinceID < r.id)).take limit

end PacketTable

end Etherchimp
