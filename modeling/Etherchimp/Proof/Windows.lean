import Etherchimp.Proof.FailedFlush
import Etherchimp.Store.Query

/-!
# Stored windows and stored totals

Both readings of a capture, the cumulative rows and the flow buckets of a window,
are aggregates of packets: one edge and one pair of nodes a packet, nothing
else. `Aggregates` says this of a result. The cumulative rows are the aggregates
of all packets of the capture, and a window those of the packets whose bucket is
in it.
-/

namespace Etherchimp

open Tally WriteBack

/-! ## Edge ids -/

namespace PacketEvent

/-- The endpoints do not contain the separator. -/
structure Clean (ev : PacketEvent) : Prop where
  src : SepFree ev.src
  dst : SepFree ev.dst

/-- Both endpoints have an id. -/
def named (ev : PacketEvent) : Bool := ev.src ≠ "" ∧ ev.dst ≠ ""

/-- The canonical endpoints are the packet's, in one of the orders. -/
theorem edge_cases (ev : PacketEvent) :
    (ev.edge.2.1 = ev.src ∧ ev.edge.2.2 = ev.dst) ∨ (ev.edge.2.1 = ev.dst ∧ ev.edge.2.2 = ev.src) := by
  unfold edge
  split
  · exact Or.inl ⟨rfl, rfl⟩
  · exact Or.inr ⟨rfl, rfl⟩

theorem edgeID_toList (ev : PacketEvent) :
    ev.edgeID.toList = ev.edge.2.1.toList ++ (edgeIDSep.toList ++ ev.edge.2.2.toList) := by
  unfold edgeID edge
  split <;> simp

end PacketEvent

theorem toList_eq_nil {s : String} : s.toList = [] ↔ s = "" :=
  ⟨fun h => String.toList_inj.mp (h.trans rfl), fun h => h ▸ rfl⟩

/-- **An edge id splits into the endpoints it was made of**, unless one of them is empty. -/
theorem splitEdgeID_edge {ev : PacketEvent} (h : ev.Clean) : splitEdgeID ev.edgeID
    = if ev.named then some (ev.edge.2.1, ev.edge.2.2) else none := by
  have hends : SepFree ev.edge.2.1 ∧ (ev.named = true ↔ ev.edge.2.1 ≠ "" ∧ ev.edge.2.2 ≠ "") := by
    unfold PacketEvent.named
    rw [decide_eq_true_iff]
    rcases ev.edge_cases with ⟨hf, ht⟩ | ⟨hf, ht⟩
    · rw [hf, ht]; exact ⟨h.src, Iff.rfl⟩
    · rw [hf, ht]; exact ⟨h.dst, and_comm⟩
  unfold splitEdgeID
  rw [ev.edgeID_toList, Separator.cut_join edgeIDSep_unbordered hends.1]
  dsimp only
  rw [String.ofList_toList, String.ofList_toList]
  refine if_congr ?_ rfl rfl
  rw [hends.2, ne_eq, ne_eq, toList_eq_nil, toList_eq_nil]

theorem splitEdgeID_named {ev : PacketEvent} (h : ev.Clean) (hn : ev.named = true) :
    splitEdgeID ev.edgeID = some (ev.edge.2.1, ev.edge.2.2) := by
  rw [splitEdgeID_edge h, if_pos hn]

/-- Which ends an edge id has is settled by any packet under it. -/
theorem edge_unique {ev ev' : PacketEvent} (h : ev.Clean) (h' : ev'.Clean)
    (hid : ev.edgeID = ev'.edgeID) : ev.edge = ev'.edge := by
  have hfree : ∀ {e : PacketEvent}, e.Clean → SepFree e.edge.2.1 := by
    intro e he
    rcases e.edge_cases with ⟨hf, -⟩ | ⟨hf, -⟩
    · rw [hf]; exact he.src
    · rw [hf]; exact he.dst
  have hl := congrArg String.toList hid
  rw [ev.edgeID_toList, ev'.edgeID_toList] at hl
  obtain ⟨hf, ht⟩ := Separator.join_inj edgeIDSep_unbordered (hfree h) (hfree h') hl
  exact Prod.ext hid (Prod.ext (String.toList_inj.mp hf) (String.toList_inj.mp ht))

/-! ## The endpoints of the edge rows -/

namespace Store

/-- Every edge aggregate, in memory, in the batch or written, has ends that are in `P`. -/
structure EdgeEnds (P : EdgeKey → String → String → Prop) (s : Store) : Prop where
  agg : ∀ k e, s.agg.edges.lookup k = some e → P k e.fromID e.toID
  batch : ∀ k e, s.batch.edges.lookup k = some e → P k e.fromID e.toID
  rows : ∀ k r, s.db.edges.lookup k = some r → P k r.fromID r.toID

variable {reg : Registry} {P : EdgeKey → String → String → Prop} {s : Store}

theorem edgeEnds_init (P : EdgeKey → String → String → Prop) (bucketSecs : Int) :
    (openStore bucketSecs).EdgeEnds P := ⟨nofun, nofun, nofun⟩

theorem EdgeEnds.emptyBatch {s' : Store} (h : s.EdgeEnds P) (ha : s'.agg = s.agg)
    (hb : s'.batch = emptyBatch) (hd : s'.db = s.db) : s'.EdgeEnds P where
  agg := ha ▸ h.agg
  batch := by rw [hb]; exact nofun
  rows := hd ▸ h.rows

theorem EdgeEnds.beginFlush (h : s.EdgeEnds P) (stop : Bool) : (s.beginFlush stop).EdgeEnds P := by
  obtain ⟨hagg, hdb, hbatch⟩ := beginFlush_parts s stop
  refine ⟨?_, ?_, ?_⟩
  · rw [hagg]; exact h.agg
  · rcases hbatch with hb | ⟨-, hb⟩
    · intro k e hl
      rw [hb] at hl
      have hl : (KeyedMap.copyKeys s.agg.edges s.agg.dirtyEdges.keys).lookup k = some e := hl
      rw [KeyedMap.lookup_copyKeys] at hl
      split at hl
      · exact h.agg k e hl
      · cases hl
    · rw [hb]; exact nofun
  · rw [hdb]; exact h.rows

theorem EdgeEnds.dropCapture (h : s.EdgeEnds P) (id : Int) :
    { s with agg := s.agg.dropCapture id }.EdgeEnds P where
  agg k e hl := by
    have hl : (KeyedMap.eraseAll s.agg.edges _).lookup k = some e := hl
    rw [KeyedMap.lookup_eraseAll] at hl
    split at hl
    · cases hl
    · exact h.agg k e hl
  batch := h.batch
  rows := h.rows

/-- A row keeps the ends it was inserted with. -/
theorem EdgeEnds.commit (h : s.EdgeEnds P) (pkts : List PacketEvent) (stop : Bool) :
    { s with db := s.db.flushTx pkts s.batch, pending := [], phase := finish stop }.EdgeEnds P where
  agg := h.agg
  batch := by
    rw [finish_batch stop rfl]
    exact nofun
  rows k r hl := by
    have hl : (KeyedMap.upsertAll upsertEdge s.db.edges s.batch.edges).lookup k = some r := hl
    rw [KeyedMap.lookup_upsertAll] at hl
    cases hb : s.batch.edges.lookup k with
    | none =>
      rw [hb] at hl
      exact h.rows k r hl
    | some e =>
      rw [hb, Option.some.injEq] at hl
      cases hr : s.db.edges.lookup k with
      | none =>
        rw [hr] at hl
        rw [← hl]
        exact h.batch k e hb
      | some old =>
        rw [hr] at hl
        rw [← hl]
        exact h.rows k old hr

theorem EdgeEnds.drainOne (h : s.EdgeEnds P) (stop : Bool) : (s.drainOne stop).EdgeEnds P := by
  unfold Store.drainOne
  by_cases hl : s.pending.length < drainMax
  · rw [if_pos hl]
    cases he : s.events with
    | nil => exact h.beginFlush stop
    | cons ev rest => exact ⟨h.agg, h.batch, h.rows⟩
  · rw [if_neg hl]
    exact h.beginFlush stop

theorem EdgeEnds.receive (h : s.EdgeEnds P) (ev : PacketEvent) (rest : List PacketEvent) :
    (if batchSize ≤ (s.pending ++ [ev]).length then
      { s with pending := s.pending ++ [ev], events := rest }.beginFlush false
    else { s with pending := s.pending ++ [ev], events := rest }).EdgeEnds P := by
  have hq : { s with pending := s.pending ++ [ev], events := rest }.EdgeEnds P :=
    ⟨h.agg, h.batch, h.rows⟩
  by_cases hl : batchSize ≤ (s.pending ++ [ev]).length
  · rw [if_pos hl]
    exact hq.beginFlush false
  · rw [if_neg hl]
    exact hq

variable (reg) in
theorem EdgeEnds.step (h : s.EdgeEnds P) (a : Action)
    (ha : ∀ ev ∈ recorded [a], P ⟨ev.captureID, ev.edgeID⟩ ev.edge.2.1 ev.edge.2.2) :
    (Store.step reg s a).EdgeEnds P := by
  cases a with
  | record ev =>
    by_cases h0 : ev.captureID = 0
    · simp only [Store.step, if_pos h0]
      exact h
    · simp only [Store.step, if_neg h0]
      have hev := ha ev (by simp [recorded, h0])
      exact ⟨Aggregator.apply_edgeEnds reg s.agg ev h.agg hev, h.batch, h.rows⟩
  | send ev =>
    simp only [Store.step]
    by_cases h0 : ev.captureID = 0
    · rw [if_pos h0]
      exact h
    · rw [if_neg h0]
      by_cases hl : s.events.length < eventsCap
      · rw [if_pos hl]
        exact ⟨h.agg, h.batch, h.rows⟩
      · rw [if_neg hl]
        exact ⟨h.agg, h.batch, h.rows⟩
  | receive =>
    cases hp : s.phase with
    | select =>
      cases he : s.events with
      | nil =>
        simp only [Store.step, hp, he]
        exact h
      | cons ev rest =>
        simp only [Store.step, hp, he]
        rw [← hp]
        exact h.receive ev rest
    | _ =>
      simp only [Store.step, hp]
      exact h
  | tick =>
    cases hp : s.phase with
    | select =>
      simp only [Store.step, hp]
      exact h.beginFlush false
    | _ =>
      simp only [Store.step, hp]
      exact h
  | flushReq =>
    cases hp : s.phase with
    | select =>
      simp only [Store.step, hp]
      exact h.emptyBatch rfl rfl rfl
    | _ =>
      simp only [Store.step, hp]
      exact h
  | done =>
    cases hp : s.phase with
    | select =>
      simp only [Store.step, hp]
      exact h.emptyBatch rfl rfl rfl
    | _ =>
      simp only [Store.step, hp]
      exact h
  | drain =>
    cases hp : s.phase with
    | drain stop =>
      simp only [Store.step, hp]
      exact h.drainOne stop
    | _ =>
      simp only [Store.step, hp]
      exact h
  | commit ok =>
    cases hp : s.phase with
    | flushing fb stop =>
      have hb : s.batch = fb := by
        unfold Store.batch
        rw [hp]
      cases ok with
      | true =>
        simp only [Store.step, hp, if_true, ← hb]
        exact h.commit s.pending stop
      | false =>
        simp only [Store.step, hp]
        exact h.emptyBatch rfl (finish_batch stop rfl) rfl
    | _ =>
      simp only [Store.step, hp]
      exact h
  | dropCapture id => exact h.dropCapture id

theorem edgeEnds_run (reg : Registry) (bucketSecs : Int) {l : List Action}
    (h : ∀ ev ∈ recorded l, P ⟨ev.captureID, ev.edgeID⟩ ev.edge.2.1 ev.edge.2.2) :
    (run reg bucketSecs l).EdgeEnds P := by
  induction l using List.reverseRecOn with
  | nil => exact edgeEnds_init P bucketSecs
  | append_singleton l a ih =>
    rw [recorded_append] at h
    unfold run
    rw [Run.exec_concat]
    exact (ih fun ev hev => h ev (List.mem_append_left _ hev)).step reg a
      fun ev hev => h ev (List.mem_append_right _ hev)

end Store

/-! ## What the aggregates of packets are -/

def StoredNode.load (n : StoredNode) : Load := (n.packetCount, n.byteCount)

def StoredEdge.counters (e : StoredEdge) : Counters :=
  ((e.packetCount, e.byteCount), (e.forwardPackets, e.forwardBytes),
    (e.reversePackets, e.reverseBytes))

/-- The id, the name and the counters of a node. -/
def StoredNode.totals (n : StoredNode) : String × String × Load := (n.id, n.hostname, n.load)

/-- The id, the endpoints and the counters of an edge. -/
def StoredEdge.totals (e : StoredEdge) : (String × String × String) × Counters :=
  ((e.id, e.fromID, e.toID), e.counters)

/-- The packets, as entries of the two endpoints. -/
def endpointTotals (evs : List PacketEvent) : List (String × Load) :=
  evs.flatMap fun ev => [(ev.src, ev.load), (ev.dst, ev.load)]

/-- The packets, as entries of their edges. -/
def edgeTotals (evs : List PacketEvent) : List (String × Counters) :=
  evs.map fun ev => (ev.edgeID, ev.counters)

/--
The nodes and edges of the packets and no others, with their totals: a node a
distinct endpoint, an edge a distinct pair of them.
-/
structure Aggregates (evs : List PacketEvent) (nodes : List StoredNode)
    (edges : List StoredEdge) : Prop where
  nodeIDs : (nodes.map StoredNode.id).Nodup
  edgeIDs : (edges.map StoredEdge.id).Nodup
  nodes : ∀ id x, (∃ n ∈ nodes, n.id = id ∧ n.load = x) ↔ cell (endpointTotals evs) id = some x
  edges : ∀ ends x, (∃ e ∈ edges, e.totals = (ends, x)) ↔
    (∃ ev ∈ evs, ev.edge = ends) ∧ cell (edgeTotals evs) ends.1 = some x

/-- The endpoints in canonical order are the endpoints. -/
theorem endpointTotals_canonical (evs : List PacketEvent) : cell (endpointTotals evs)
    = cell (evs.flatMap fun ev => [(ev.edge.2.1, ev.load), (ev.edge.2.2, ev.load)]) := by
  refine cell_perm (List.Perm.flatMap_left evs fun ev _ => ?_)
  rcases ev.edge_cases with ⟨hf, ht⟩ | ⟨hf, ht⟩
  · rw [hf, ht]
  · rw [hf, ht]; exact List.Perm.swap ..

/-! ## Scanning a window -/

/-- The endpoints that an edge id is cut into. -/
def rowEnds (id : String) : String × String := (splitEdgeID id).getD ("", "")

def BucketRow.load (r : BucketRow) : Load := (r.packets, r.bytes)

namespace WindowScan

/-- A row of the window query. -/
abbrev Row := (String × String) × BucketRow

/-- What the scan has gathered from the rows so far. -/
structure Inv (rows : List Row) (s : WindowScan) : Prop where
  edges : Tally.counters StoredEdge.counters s.edgeByID
    = cell (rows.map fun r => (r.1.1, r.2.counters))
  ends : ∀ id e, s.edgeByID.lookup id = some e →
    e.id = id ∧ splitEdgeID id = some (e.fromID, e.toID)
  nodes : Tally.counters id s.nodeAggs
    = cell (rows.flatMap fun r => [((rowEnds r.1.1).1, r.2.load), ((rowEnds r.1.1).2, r.2.load)])
  nodup : s.order.Nodup
  order : ∀ id, id ∈ s.order ↔ ∃ e, s.edgeByID.lookup id = some e

variable {reg : Registry} {rows : List Row} {s : WindowScan} {row : Row}

theorem inv_init : Inv [] {} := ⟨rfl, nofun, rfl, List.nodup_nil, by simp⟩

theorem addRow_counters (e : StoredEdge) (r : BucketRow) :
    (addRow e r).counters = e.counters + r.counters := rfl

theorem addNode_counters (aggs : KeyedMap String (Nat × Nat)) (r : BucketRow) (nid : String) :
    Tally.counters id (addNode aggs r nid) = bump (Tally.counters id aggs) nid r.load :=
  counters_insert (f := id) (g := fun nt : Nat × Nat => (nt.1 + r.packets, nt.2 + r.bytes))
    (d := (0, 0)) aggs nid rfl fun _ => rfl

/-- The edge that a row is added to, when its id splits. -/
theorem Inv.edgeFor (h : Inv rows s) {id : String} (proto : String) {ends : String × String}
    (hs : splitEdgeID id = some ends) : ∃ e, s.edgeFor id proto = some e ∧ e.id = id
      ∧ splitEdgeID id = some (e.fromID, e.toID)
      ∧ e.counters = (Tally.counters StoredEdge.counters s.edgeByID id).getD 0 := by
  unfold WindowScan.edgeFor Tally.counters
  cases hl : s.edgeByID.lookup id with
  | some e => exact ⟨e, rfl, (h.ends id e hl).1, (h.ends id e hl).2, rfl⟩
  | none =>
    rw [hs]
    exact ⟨_, rfl, rfl, rfl, rfl⟩

theorem Inv.scan (h : Inv rows s) {ends : String × String}
    (hs : splitEdgeID row.1.1 = some ends) : Inv (rows ++ [row]) (s.scan reg row) := by
  obtain ⟨⟨id, proto⟩, r⟩ := row
  obtain ⟨e, he, heid, hends, hctr⟩ := h.edgeFor proto hs
  -- the edge that is written back: more counters, maybe another protocol
  obtain ⟨e', protoPackets, hscan, hid', hends', hctr'⟩ : ∃ e' protoPackets,
      s.scan reg ((id, proto), r)
        = { nodeAggs := addNode (addNode s.nodeAggs r e.fromID) r e.toID
            edgeByID := s.edgeByID.insert id e'
            protoPackets := protoPackets
            order := if s.edgeByID.lookup id = none then s.order ++ [id] else s.order }
      ∧ e'.id = id ∧ splitEdgeID id = some (e'.fromID, e'.toID)
      ∧ e'.counters = e.counters + r.counters := by
    unfold WindowScan.scan
    dsimp only
    rw [he]
    dsimp only
    split
    · exact ⟨_, _, rfl, heid, hends, addRow_counters e r⟩
    · exact ⟨_, _, rfl, heid, hends, addRow_counters e r⟩
  have hrow : rowEnds id = (e.fromID, e.toID) := by
    unfold rowEnds
    rw [hends, Option.getD_some]
  rw [hscan]
  refine ⟨?_, ?_, ?_, ?_, ?_⟩
  · rw [List.map_append, List.map_singleton, cell_concat, ← h.edges]
    funext k
    unfold bump
    rw [← hctr, ← hctr']
    unfold Tally.counters
    rw [KeyedMap.lookup_insert_eq]
    split <;> rfl
  · intro k x hl
    rw [KeyedMap.lookup_insert_eq] at hl
    split at hl
    · rename_i hk
      rw [Option.some.injEq] at hl
      rw [← hl, hk]
      exact ⟨hid', hends'⟩
    · exact h.ends k x hl
  · rw [List.flatMap_append, List.flatMap_singleton, hrow]
    show Tally.counters _ _ = cell (_ ++ ([(e.fromID, r.load)] ++ [(e.toID, r.load)]))
    rw [← List.append_assoc, cell_concat, cell_concat, ← h.nodes, addNode_counters,
      addNode_counters]
  · dsimp only
    split
    · rename_i hl
      refine List.nodup_append.mpr ⟨h.nodup, List.nodup_singleton id, ?_⟩
      intro a ha b hb hab
      obtain ⟨x, hx⟩ := (h.order a).mp ha
      rw [hab, List.mem_singleton.mp hb, hl] at hx
      cases hx
    · exact h.nodup
  · intro k
    dsimp only
    rw [KeyedMap.lookup_insert_eq]
    by_cases hk : k = id
    · rw [if_pos hk]
      refine iff_of_true ?_ ⟨e', rfl⟩
      split
      · exact List.mem_append_right _ (List.mem_singleton.mpr hk)
      · rename_i hl
        exact hk ▸ (h.order id).mpr (Option.ne_none_iff_exists'.mp hl)
    · rw [if_neg hk, ← h.order k]
      split
      · rw [List.mem_append, List.mem_singleton, or_iff_left hk]
      · rfl

/-- The row's id splits. -/
def splits (row : Row) : Bool := (splitEdgeID row.1.1).isSome

/-- A row whose id does not split has no edge to be added to. -/
theorem Inv.skip (h : Inv rows s) (hs : splits row = false) : s.scan reg row = s := by
  obtain ⟨⟨id, proto⟩, r⟩ := row
  have hnone : splitEdgeID id = none := Option.isSome_eq_false_iff.mp hs |> Option.isNone_iff_eq_none.mp
  have hedge : s.edgeFor id proto = none := by
    unfold WindowScan.edgeFor
    cases hl : s.edgeByID.lookup id with
    | none => rw [hnone]; rfl
    | some e =>
      have hsome := (h.ends id e hl).2
      rw [hnone] at hsome
      cases hsome
  unfold WindowScan.scan
  dsimp only
  rw [hedge]

/-- The scan gathers the rows that split. -/
theorem inv_scan (reg : Registry) (rows : List Row) :
    Inv (rows.filter splits) (rows.foldl (WindowScan.scan reg) {}) := by
  induction rows using List.reverseRecOn with
  | nil => exact inv_init
  | append_singleton rows row ih =>
    rw [List.foldl_append, List.filter_append, List.filter_singleton]
    cases hs : splits row with
    | true =>
      obtain ⟨ends, hends⟩ := Option.isSome_iff_exists.mp hs
      exact ih.scan hends
    | false =>
      rw [cond_false, List.append_nil, List.foldl_cons, List.foldl_nil, ih.skip hs]
      exact ih

end WindowScan

/-! ## A window is the aggregates of its packets -/

section Window

variable {reg : Registry} {bucketSecs captureID lo hi : Int} {evs : List PacketEvent} {db : DB}

/-- The packet is the capture's and its bucket is in `[lo, hi)`. -/
def PacketEvent.inWindow (bucketSecs captureID lo hi : Int) (ev : PacketEvent) : Bool :=
  ev.captureID = captureID ∧ lo ≤ (ev.bucket bucketSecs).ts ∧ (ev.bucket bucketSecs).ts < hi

/-- The query has one row for each edge and protocol of the packets in the window. -/
theorem DB.windowRows_counters
    (hb : Tally.counters BucketRow.counters db.flowBuckets = cell (bucketHistory bucketSecs evs)) :
    Tally.counters BucketRow.counters (db.windowRows captureID lo hi)
      = cell ((evs.filter (·.inWindow bucketSecs captureID lo hi)).map
          fun ev => ((ev.edgeID, ev.proto), ev.counters)) := by
  have hcollect := counters_collect (f := BucketRow.counters) (g := BucketRow.counters)
    (u := sumRow) ((db.bucketsIn captureID lo hi).map fun e => ((e.1.edgeID, e.1.proto), e.2))
    (fun _ => rfl) fun _ _ => rfl
  refine hcollect.trans (funext fun k => ?_)
  rw [List.map_map]
  exact cell_rows (w := PacketEvent.counters) hb
    (p := fun k => decide (k.captureID = captureID ∧ lo ≤ k.ts ∧ k.ts < hi)) (.refl _)
    (fun k => (k.edgeID, k.proto)) (AddMonoidHom.id Counters) k

variable {rows : List WindowScan.Row}

/-- The rows in `p`, filed under anything that their edge ids determine. -/
theorem DB.windowRows_cell {κ : Type} [DecidableEq κ] {M : Type} [AddCommMonoid M]
    (hb : Tally.counters BucketRow.counters db.flowBuckets = cell (bucketHistory bucketSecs evs))
    (hrows : rows.Perm ((db.windowRows captureID lo hi).entries.map fun e => (e.1, e.2)))
    (p : String → Bool) (file : String → κ) (π : Counters →+ M) (k : κ) :
    cell ((rows.filter fun r => p r.1.1).map fun r => (file r.1.1, π r.2.counters)) k
      = cell (((evs.filter (·.inWindow bucketSecs captureID lo hi)).filter
          fun ev => p ev.edgeID).map fun ev => (file ev.edgeID, π ev.counters)) k := by
  have hfilter := hrows.filter fun r => p r.1.1
  rw [List.filter_map] at hfilter
  exact cell_rows (w := PacketEvent.counters) (DB.windowRows_counters hb)
    (p := fun k => p k.1) hfilter (fun k => file k.1) π k

/-- With nothing gathered there is nothing to list either. -/
theorem WindowScan.Inv.result {s : WindowScan} (h : WindowScan.Inv rows s)
    (hostnames : KeyedMap String String) : s.result hostnames
      = (s.nodeAggs.entries.map fun e =>
          { id := e.1, hostname := (hostnames.lookup e.1).getD ""
            packetCount := e.2.1, byteCount := e.2.2 },
        s.order.filterMap s.edgeByID.lookup) := by
  unfold WindowScan.result
  split
  · rename_i hnil
    have hrows : rows = [] := by
      have hcell := h.nodes.symm.trans (counters_eq_none_iff.mpr hnil)
      cases rows with
      | nil => rfl
      | cons r rows => cases cell_eq_none_iff.mp hcell
    have horder : s.order = [] := by
      refine List.eq_nil_iff_forall_not_mem.mpr fun id hid => ?_
      obtain ⟨e, he⟩ := (h.order id).mp hid
      have hcell := congrFun h.edges id
      unfold Tally.counters at hcell
      rw [he, hrows] at hcell
      cases hcell
    rw [hnil, horder]
    rfl
  · rfl

theorem WindowScan.Inv.mem_edges {s : WindowScan} (h : WindowScan.Inv rows s) (e : StoredEdge) :
    e ∈ s.order.filterMap s.edgeByID.lookup ↔ s.edgeByID.lookup e.id = some e := by
  rw [List.mem_filterMap]
  constructor
  · intro ⟨id, _, hl⟩
    rw [(h.ends id e hl).1]
    exact hl
  · exact fun hl => ⟨e.id, (h.order e.id).mpr ⟨e, hl⟩, hl⟩

theorem WindowScan.Inv.edgeIDs {s : WindowScan} (h : WindowScan.Inv rows s) :
    ((s.order.filterMap s.edgeByID.lookup).map StoredEdge.id).Nodup := by
  have hids : (s.order.filterMap s.edgeByID.lookup).map StoredEdge.id = s.order := by
    rw [List.map_filterMap]
    refine (List.filterMap_congr fun id hid => ?_).trans List.filterMap_some
    obtain ⟨e, he⟩ := (h.order id).mp hid
    rw [he, Option.map_some, (h.ends id e he).1]
  rw [hids]
  exact h.nodup

/-- The edges gathered are those of the packets, when the counters are. -/
theorem WindowScan.Inv.edges_iff {s : WindowScan} (h : WindowScan.Inv rows s)
    {win : List PacketEvent} (hclean : ∀ ev ∈ win, ev.Clean) (hnamed : ∀ ev ∈ win, ev.named = true)
    (hcells : Tally.counters StoredEdge.counters s.edgeByID = cell (edgeTotals win))
    (ends : String × String × String) (x : Counters) :
    (∃ e ∈ s.order.filterMap s.edgeByID.lookup, e.totals = (ends, x))
      ↔ (∃ ev ∈ win, ev.edge = ends) ∧ cell (edgeTotals win) ends.1 = some x := by
  have hsplit : ∀ ev ∈ win, splitEdgeID ev.edgeID = some (ev.edge.2.1, ev.edge.2.2) :=
    fun ev hev => splitEdgeID_named (hclean ev hev) (hnamed ev hev)
  constructor
  · intro ⟨e, he, htot⟩
    have hl := (h.mem_edges e).mp he
    have hid : e.id = ends.1 := congrArg (fun t => t.1.1) htot
    have hcell : cell (edgeTotals win) e.id = some e.counters := by
      rw [← hcells]
      unfold Tally.counters
      rw [hl, Option.map_some]
    obtain ⟨y, hy, hyk⟩ := List.mem_map.mp (cell_eq_some.mp hcell).1
    obtain ⟨ev, hev, rfl⟩ := List.mem_map.mp hy
    refine ⟨⟨ev, hev, ?_⟩, ?_⟩
    · have hs := (h.ends e.id e hl).2
      rw [← hyk, hsplit ev hev, Option.some.injEq, Prod.mk.injEq] at hs
      have hedge : ev.edge = (e.id, e.fromID, e.toID) := Prod.ext hyk (Prod.ext hs.1 hs.2)
      exact hedge.trans (congrArg Prod.fst htot)
    · rw [← hid, hcell]
      exact congrArg (fun t => some t.2) htot
  · intro ⟨⟨ev, hev, hedge⟩, hx⟩
    rw [← hcells] at hx
    obtain ⟨e, hl, hctr⟩ := Option.map_eq_some_iff.mp hx
    obtain ⟨hid, hs⟩ := h.ends _ e hl
    refine ⟨e, (h.mem_edges e).mpr (by rw [hid]; exact hl), ?_⟩
    have hid' : ev.edgeID = ends.1 := congrArg Prod.fst hedge
    rw [← hid', hsplit ev hev, Option.some.injEq, Prod.mk.injEq, hedge] at hs
    exact Prod.ext (Prod.ext hid (Prod.ext hs.1.symm hs.2.symm)) hctr

/--
**A window is the aggregates of its packets**, in whatever order the query returns
its rows; a packet with an empty endpoint is left out.
-/
theorem DB.scanRows_aggregates (reg : Registry)
    (hb : Tally.counters BucketRow.counters db.flowBuckets = cell (bucketHistory bucketSecs evs))
    (hclean : ∀ ev ∈ evs, ev.captureID = captureID → ev.Clean)
    (hrows : rows.Perm ((db.windowRows captureID lo hi).entries.map fun e => (e.1, e.2))) :
    Aggregates (evs.filter fun ev => ev.inWindow bucketSecs captureID lo hi && ev.named)
      (db.scanRows reg captureID rows).1 (db.scanRows reg captureID rows).2 := by
  have hwin : ((evs.filter (·.inWindow bucketSecs captureID lo hi)).filter
      fun ev => (splitEdgeID ev.edgeID).isSome)
      = evs.filter fun ev => ev.inWindow bucketSecs captureID lo hi && ev.named := by
    rw [List.filter_filter]
    refine List.filter_congr fun ev hev => ?_
    cases hin : ev.inWindow bucketSecs captureID lo hi with
    | false => rw [Bool.and_false, Bool.false_and]
    | true =>
      rw [splitEdgeID_edge (hclean ev hev (of_decide_eq_true hin).1)]
      cases ev.named <;> rfl
  have hcell := fun {κ : Type} [DecidableEq κ] {M : Type} [AddCommMonoid M] (file : String → κ)
    (π : Counters →+ M) => hwin ▸ funext (DB.windowRows_cell hb hrows
      (fun id => (splitEdgeID id).isSome) file π)
  have hinv := WindowScan.inv_scan reg rows
  unfold DB.scanRows
  rw [hinv.result]
  have hmem : ∀ ev ∈ evs.filter (fun ev => ev.inWindow bucketSecs captureID lo hi && ev.named),
      ev.Clean ∧ ev.named = true := by
    intro ev hev
    obtain ⟨hev, hp⟩ := List.mem_filter.mp hev
    rw [Bool.and_eq_true] at hp
    exact ⟨hclean ev hev (of_decide_eq_true hp.1).1, hp.2⟩
  generalize rows.foldl (WindowScan.scan reg) {} = s at hinv
  generalize (evs.filter fun ev => ev.inWindow bucketSecs captureID lo hi && ev.named) = win at *
  have hedges : Tally.counters StoredEdge.counters s.edgeByID = cell (edgeTotals win) :=
    hinv.edges.trans (hcell (fun id => id) (AddMonoidHom.id Counters))
  have hnodes : Tally.counters id s.nodeAggs = cell (endpointTotals win) := by
    have hends : ∀ ev ∈ win, rowEnds ev.edgeID = (ev.edge.2.1, ev.edge.2.2) := by
      intro ev hev
      unfold rowEnds
      rw [splitEdgeID_named (hmem ev hev).1 (hmem ev hev).2, Option.getD_some]
    rw [hinv.nodes, endpointTotals_canonical]
    funext k
    rw [cell_pairs, cell_pairs]
    have hfrom := congrFun (hcell (fun id => (rowEnds id).1) (AddMonoidHom.fst Load (Load × Load))) k
    have hto := congrFun (hcell (fun id => (rowEnds id).2) (AddMonoidHom.fst Load (Load × Load))) k
    refine congrArg₂ _ (hfrom.trans ?_) (hto.trans ?_)
    · refine congrFun (congrArg cell (List.map_congr_left fun ev hev => ?_)) k
      rw [hends ev hev]
      rfl
    · refine congrFun (congrArg cell (List.map_congr_left fun ev hev => ?_)) k
      rw [hends ev hev]
      rfl
  refine ⟨?_, hinv.edgeIDs, ?_, hinv.edges_iff (fun ev hev => (hmem ev hev).1)
    (fun ev hev => (hmem ev hev).2) hedges⟩
  · rw [List.map_map]
    exact s.nodeAggs.nodupKeys
  · intro id x
    rw [← hnodes]
    unfold Tally.counters
    rw [Option.map_id, id_eq, ← KeyedMap.mem_entries_iff]
    constructor
    · intro ⟨n, hn, hid, hx⟩
      obtain ⟨e, he, rfl⟩ := List.mem_map.mp hn
      rw [← hid, ← hx]
      exact he
    · exact fun he => ⟨_, List.mem_map_of_mem he, rfl, rfl⟩

end Window

/-! ## The stored rows are the aggregates of the capture -/

section Totals

variable {reg : Registry} {bucketSecs captureID : Int} {evs : List PacketEvent} {db : DB}

/-- The rows of one capture have different ids. -/
theorem nodup_ids {κ ω : Type} [DecidableEq κ] (m : KeyedMap κ ω) (id : κ → String) {p : κ → Bool}
    (hid : ∀ k k', p k = true → p k' = true → id k = id k' → k = k') :
    ((m.entries.filter fun e => p e.1).map fun e => id e.1).Nodup := by
  have hkeys : (m.entries.map Sigma.fst).Nodup := m.nodupKeys
  have hsub : ((m.entries.filter fun e => p e.1).map Sigma.fst).Nodup :=
    hkeys.sublist (List.filter_sublist.map Sigma.fst)
  have hmap : (m.entries.filter fun e => p e.1).map (fun e => id e.1)
      = ((m.entries.filter fun e => p e.1).map Sigma.fst).map id := by
    rw [List.map_map]
    rfl
  rw [hmap]
  refine hsub.map_on fun k hk k' hk' h => ?_
  obtain ⟨e, he, rfl⟩ := List.mem_map.mp hk
  obtain ⟨e', he', rfl⟩ := List.mem_map.mp hk'
  exact hid _ _ (List.mem_filter.mp he).2 (List.mem_filter.mp he').2 h

/-- The cells of one capture, filed under the endpoint alone. -/
theorem nodeHistory_cell (evs : List PacketEvent) (captureID : Int) (id : String) :
    cell (nodeHistory evs) ⟨captureID, id⟩
      = cell (endpointTotals (evs.filter (·.captureID = captureID))) id := by
  have hkey : ∀ (ev : PacketEvent) (a : String), (⟨ev.captureID, a⟩ : NodeKey) = ⟨captureID, id⟩
      ↔ decide (ev.captureID = captureID) = true ∧ a = id := by
    intro ev a
    rw [NodeKey.mk.injEq, decide_eq_true_iff]
  refine (cell_pairs evs (fun ev => (⟨ev.captureID, ev.src⟩ : NodeKey))
    (fun ev => ⟨ev.captureID, ev.dst⟩) PacketEvent.load ⟨captureID, id⟩).trans ?_
  unfold endpointTotals
  rw [cell_pairs]
  exact congrArg₂ _ (cell_reindex fun ev _ => hkey ev ev.src)
    (cell_reindex fun ev _ => hkey ev ev.dst)

theorem edgeHistory_cell (evs : List PacketEvent) (captureID : Int) (id : String) :
    cell (edgeHistory allCounters evs) ⟨captureID, id⟩
      = cell (edgeTotals (evs.filter (·.captureID = captureID))) id := by
  refine cell_reindex fun ev _ => ?_
  rw [EdgeKey.mk.injEq, decide_eq_true_iff]

theorem DB.mem_nodeRows {n : StoredNode} : n ∈ db.nodeRows captureID
    ↔ ∃ r, db.nodes.lookup ⟨captureID, n.id⟩ = some r ∧ n = r.stored n.id := by
  unfold DB.nodeRows
  rw [List.mem_map]
  constructor
  · intro ⟨e, he, hn⟩
    obtain ⟨hmem, hc⟩ := List.mem_filter.mp he
    rw [← hn, ← of_decide_eq_true hc]
    exact ⟨e.2, (KeyedMap.mem_entries_iff _ e.1 e.2).mp hmem, rfl⟩
  · intro ⟨r, hl, hn⟩
    refine ⟨⟨⟨captureID, n.id⟩, r⟩, List.mem_filter.mpr ⟨?_, decide_eq_true rfl⟩, hn.symm⟩
    exact (KeyedMap.mem_entries_iff _ _ r).mpr hl

theorem DB.mem_edgeRows {e : StoredEdge} : e ∈ db.edgeRows captureID
    ↔ ∃ r, db.edges.lookup ⟨captureID, e.id⟩ = some r ∧ e = r.stored e.id := by
  unfold DB.edgeRows
  rw [List.mem_map]
  constructor
  · intro ⟨x, hx, he⟩
    obtain ⟨hmem, hc⟩ := List.mem_filter.mp hx
    rw [← he, ← of_decide_eq_true hc]
    exact ⟨x.2, (KeyedMap.mem_entries_iff _ x.1 x.2).mp hmem, rfl⟩
  · intro ⟨r, hl, he⟩
    refine ⟨⟨⟨captureID, e.id⟩, r⟩, List.mem_filter.mpr ⟨?_, decide_eq_true rfl⟩, he.symm⟩
    exact (KeyedMap.mem_entries_iff _ _ r).mpr hl

theorem DB.nodeRows_nodup (db : DB) (captureID : Int) :
    ((db.nodeRows captureID).map StoredNode.id).Nodup := by
  unfold DB.nodeRows
  rw [List.map_map]
  refine nodup_ids db.nodes NodeKey.id (p := fun k => k.captureID = captureID) ?_
  intro ⟨c, i⟩ ⟨c', i'⟩ hc hc' hi
  rw [NodeKey.mk.injEq]
  exact ⟨(of_decide_eq_true hc).trans (of_decide_eq_true hc').symm, hi⟩

theorem DB.edgeRows_nodup (db : DB) (captureID : Int) :
    ((db.edgeRows captureID).map StoredEdge.id).Nodup := by
  unfold DB.edgeRows
  rw [List.map_map]
  refine nodup_ids db.edges EdgeKey.id (p := fun k => k.captureID = captureID) ?_
  intro ⟨c, i⟩ ⟨c', i'⟩ hc hc' hi
  rw [EdgeKey.mk.injEq]
  exact ⟨(of_decide_eq_true hc).trans (of_decide_eq_true hc').symm, hi⟩

/-- **The cumulative rows are the aggregates of the whole capture.** -/
theorem DB.loadAggregates_aggregates (hrows : RowsExact bucketSecs evs db)
    (hends : ∀ k r, db.edges.lookup k = some r →
      ∃ ev ∈ evs, ev.captureID = k.captureID ∧ ev.edge = (k.id, r.fromID, r.toID))
    (hclean : ∀ ev ∈ evs, ev.captureID = captureID → ev.Clean) :
    Aggregates (evs.filter (·.captureID = captureID)) (db.loadAggregates captureID).1
      (db.loadAggregates captureID).2 := by
  obtain ⟨-, hnodes, hedges⟩ := hrows
  refine ⟨db.nodeRows_nodup captureID, db.edgeRows_nodup captureID, ?_, ?_⟩
  · intro id x
    rw [← nodeHistory_cell, ← hnodes]
    unfold Tally.counters
    rw [Option.map_eq_some_iff]
    constructor
    · intro ⟨n, hn, hid, hx⟩
      obtain ⟨r, hl, hst⟩ := DB.mem_nodeRows.mp hn
      rw [hid] at hl
      refine ⟨r, hl, ?_⟩
      rw [← hx, hst]
      rfl
    · exact fun ⟨r, hl, hx⟩ => ⟨r.stored id, DB.mem_nodeRows.mpr ⟨r, hl, rfl⟩, rfl, hx⟩
  · intro ends x
    rw [← edgeHistory_cell, ← hedges]
    unfold Tally.counters
    rw [Option.map_eq_some_iff]
    constructor
    · intro ⟨e, he, htot⟩
      obtain ⟨r, hl, hst⟩ := DB.mem_edgeRows.mp he
      have hid : e.id = ends.1 := congrArg (fun t => t.1.1) htot
      obtain ⟨ev, hev, hc, hedge⟩ := hends _ r hl
      refine ⟨⟨ev, List.mem_filter.mpr ⟨hev, decide_eq_true hc⟩, ?_⟩, r, hid ▸ hl, ?_⟩
      · have hself : (e.id, e.fromID, e.toID) = ends := congrArg Prod.fst htot
        refine hedge.trans (Eq.trans ?_ hself)
        exact Prod.ext rfl (Prod.ext (congrArg StoredEdge.fromID hst).symm
          (congrArg StoredEdge.toID hst).symm)
      · exact (congrArg StoredEdge.counters hst).symm.trans (congrArg Prod.snd htot)
    · intro ⟨⟨ev, hev, hedge⟩, r, hl, hx⟩
      obtain ⟨hev, hc⟩ := List.mem_filter.mp hev
      obtain ⟨ev', hev', hc', hedge'⟩ := hends _ r hl
      -- both packets have this edge id, so they have the same ends
      have hsame := edge_unique (hclean ev hev (of_decide_eq_true hc)) (hclean ev' hev' hc')
        ((congrArg Prod.fst hedge).trans (congrArg Prod.fst hedge').symm)
      have hrow : ends = (ends.1, r.fromID, r.toID) := by
        rw [← hedge', ← hsame, hedge]
      refine ⟨r.stored ends.1, DB.mem_edgeRows.mpr ⟨r, hl, rfl⟩, ?_⟩
      rw [hrow, ← hx]
      rfl

/-- The names found are those of the rows. -/
theorem hostnamesOf_lookup {ns : List StoredNode} (h : (ns.map StoredNode.id).Nodup)
    {n : StoredNode} (hn : n ∈ ns) : ((hostnamesOf ns).lookup n.id).getD "" = n.hostname := by
  have hnone : ∀ {ns : List StoredNode} {k : String}, k ∉ ns.map StoredNode.id →
      (hostnamesOf ns).lookup k = none := by
    intro ns k hk
    unfold hostnamesOf
    induction ns using List.reverseRecOn with
    | nil => rfl
    | append_singleton ns x ih =>
      rw [List.map_append, List.mem_append, not_or] at hk
      have hx : k ≠ x.id := fun he => hk.2 (List.mem_singleton.mpr he)
      rw [List.foldl_append, List.foldl_cons, List.foldl_nil]
      split
      · rw [AList.lookup_insert_ne hx]
        exact ih hk.1
      · exact ih hk.1
  unfold hostnamesOf
  induction ns using List.reverseRecOn with
  | nil => cases hn
  | append_singleton ns x ih =>
    rw [List.map_append, List.nodup_append] at h
    rw [List.foldl_append, List.foldl_cons, List.foldl_nil]
    have hxs : x.id ∉ ns.map StoredNode.id := fun hm =>
      h.2.2 x.id hm x.id (List.mem_singleton_self x.id) rfl
    rcases List.mem_append.mp hn with hn | hn
    · have hne : n.id ≠ x.id := fun he => hxs (he ▸ List.mem_map_of_mem hn)
      split
      · rw [AList.lookup_insert_ne hne]
        exact ih h.1 hn
      · exact ih h.1 hn
    · rw [List.mem_singleton] at hn
      subst hn
      split
      · rw [AList.lookup_insert]
        rfl
      · rename_i hempty
        have hl := hnone hxs
        unfold hostnamesOf at hl
        rw [hl]
        exact (not_not.mp hempty).symm

/-- Two results with the same aggregates are the same but for their order. -/
theorem Aggregates.edges_perm {nodes nodes' : List StoredNode} {edges edges' : List StoredEdge}
    (h : Aggregates evs nodes edges) (h' : Aggregates evs nodes' edges') :
    (edges.map StoredEdge.totals).Perm (edges'.map StoredEdge.totals) := by
  have hnodup : ∀ {es : List StoredEdge}, (es.map StoredEdge.id).Nodup →
      (es.map StoredEdge.totals).Nodup := by
    intro es hes
    refine List.Nodup.of_map (fun t => t.1.1) ?_
    rw [List.map_map]
    exact hes
  refine (List.perm_ext_iff_of_nodup (hnodup h.edgeIDs) (hnodup h'.edgeIDs)).mpr fun t => ?_
  rw [List.mem_map, List.mem_map]
  exact (h.edges t.1 t.2).trans (h'.edges t.1 t.2).symm

/-- So are the nodes, when both take their names from one place. -/
theorem Aggregates.nodes_perm {nodes nodes' : List StoredNode} {edges edges' : List StoredEdge}
    (h : Aggregates evs nodes edges) (h' : Aggregates evs nodes' edges') (name : String → String)
    (hname : ∀ n ∈ nodes, n.hostname = name n.id) (hname' : ∀ n ∈ nodes', n.hostname = name n.id) :
    (nodes.map StoredNode.totals).Perm (nodes'.map StoredNode.totals) := by
  have hnodup : ∀ {ns : List StoredNode}, (ns.map StoredNode.id).Nodup →
      (ns.map StoredNode.totals).Nodup := by
    intro ns hns
    refine List.Nodup.of_map Prod.fst ?_
    rw [List.map_map]
    exact hns
  have hmem : ∀ {ns : List StoredNode}, (∀ n ∈ ns, n.hostname = name n.id) → ∀ t,
      t ∈ ns.map StoredNode.totals ↔ t.2.1 = name t.1 ∧ ∃ n ∈ ns, n.id = t.1 ∧ n.load = t.2.2 := by
    intro ns hns t
    rw [List.mem_map]
    constructor
    · intro ⟨n, hn, ht⟩
      rw [← ht]
      exact ⟨hns n hn, n, hn, rfl, rfl⟩
    · intro ⟨hhost, n, hn, hid, hload⟩
      refine ⟨n, hn, Prod.ext hid (Prod.ext ?_ hload)⟩
      exact (hns n hn).trans ((congrArg name hid).trans hhost.symm)
  refine (List.perm_ext_iff_of_nodup (hnodup h.nodeIDs) (hnodup h'.nodeIDs)).mpr fun t => ?_
  rw [hmem hname, hmem hname', h.nodes, h'.nodes]

theorem DB.scanRows_hostname (reg : Registry) (db : DB) (captureID : Int)
    (rows : List WindowScan.Row) {n : StoredNode} (hn : n ∈ (db.scanRows reg captureID rows).1) :
    n.hostname = ((hostnamesOf (db.nodeRows captureID)).lookup n.id).getD "" := by
  unfold DB.scanRows WindowScan.result at hn
  split at hn
  · cases hn
  · obtain ⟨e, -, rfl⟩ := List.mem_map.mp hn
    rfl

/-- The buckets of a capture are those of its packets. -/
theorem DB.mem_bucketTimes
    (hb : Tally.counters BucketRow.counters db.flowBuckets = cell (bucketHistory bucketSecs evs))
    (t : Int) :
    t ∈ ((db.flowBuckets.entries.filter fun e => e.1.captureID = captureID).map fun e => e.1.ts)
      ↔ ∃ ev ∈ evs, ev.captureID = captureID ∧ (ev.bucket bucketSecs).ts = t := by
  rw [List.mem_map]
  constructor
  · intro ⟨e, he, ht⟩
    obtain ⟨hmem, hc⟩ := List.mem_filter.mp he
    have hl := (KeyedMap.mem_entries_iff _ e.1 e.2).mp hmem
    have hcell : cell (bucketHistory bucketSecs evs) e.1 = some e.2.counters := by
      rw [← hb]
      unfold Tally.counters
      rw [hl, Option.map_some]
    obtain ⟨x, hx, hk⟩ := List.mem_map.mp (cell_eq_some.mp hcell).1
    obtain ⟨ev, hev, rfl⟩ := List.mem_map.mp hx
    have hk : ev.bucket bucketSecs = e.1 := hk
    rw [← hk] at ht hc
    exact ⟨ev, hev, of_decide_eq_true hc, ht⟩
  · intro ⟨ev, hev, hc, ht⟩
    cases hl : db.flowBuckets.lookup (ev.bucket bucketSecs) with
    | some r =>
      exact ⟨⟨ev.bucket bucketSecs, r⟩,
        List.mem_filter.mpr ⟨(KeyedMap.mem_entries_iff _ _ r).mpr hl, decide_eq_true hc⟩, ht⟩
    | none =>
      have hcell := congrFun hb (ev.bucket bucketSecs)
      unfold Tally.counters at hcell
      rw [hl] at hcell
      refine absurd ?_ (cell_eq_none.mp hcell.symm)
      exact List.mem_map.mpr ⟨_, List.mem_map_of_mem hev, rfl⟩

/-- The first and the last bucket are those of the packets. -/
theorem DB.bucketBounds_mem
    (hb : Tally.counters BucketRow.counters db.flowBuckets = cell (bucketHistory bucketSecs evs))
    {ev : PacketEvent} (hev : ev ∈ evs) :
    (db.bucketBounds ev.captureID).1 ≤ (ev.bucket bucketSecs).ts
      ∧ (ev.bucket bucketSecs).ts ≤ (db.bucketBounds ev.captureID).2 := by
  have hmem := (DB.mem_bucketTimes hb (ev.bucket bucketSecs).ts).mpr ⟨ev, hev, rfl, rfl⟩
  unfold DB.bucketBounds
  dsimp only
  generalize List.map _ _ = ts at hmem
  obtain ⟨a, ha⟩ := Option.isSome_iff_exists.mp (List.isSome_min?_of_mem hmem)
  obtain ⟨b, hb⟩ := Option.isSome_iff_exists.mp (List.isSome_max?_of_mem hmem)
  rw [ha, hb]
  exact ⟨(List.min?_eq_some_iff.mp ha).2 _ hmem, (List.max?_eq_some_iff.mp hb).2 _ hmem⟩

/-- The window from the first bucket to the last holds every packet of the capture. -/
theorem inWindow_all
    (hb : Tally.counters BucketRow.counters db.flowBuckets = cell (bucketHistory bucketSecs evs))
    (hnamed : ∀ ev ∈ evs, ev.captureID = captureID → ev.named = true) :
    evs.filter (fun ev => ev.inWindow bucketSecs captureID (db.bucketBounds captureID).1
        ((db.bucketBounds captureID).2 + 1) && ev.named)
      = evs.filter (·.captureID = captureID) := by
  refine List.filter_congr fun ev hev => ?_
  rw [Bool.eq_iff_iff, Bool.and_eq_true, decide_eq_true_iff]
  unfold PacketEvent.inWindow
  rw [decide_eq_true_iff]
  refine ⟨fun h => h.1.1, fun hc => ⟨?_, hnamed ev hev hc⟩⟩
  obtain ⟨hlo, hhi⟩ := DB.bucketBounds_mem hb hev
  rw [hc] at hlo hhi
  exact ⟨hc, hlo, by omega⟩

end Totals

namespace Store

variable {reg : Registry} {bucketSecs : Int} {l : List Action}

/-- When every transaction commits the rows are exact at the end of every flush. -/
theorem rowsExact_settled (reg : Registry) (bucketSecs : Int)
    (hdrop : ∀ a ∈ l, ∀ id, a ≠ .dropCapture id) (hcommit : ∀ a ∈ l, a ≠ .commit false)
    (hsettled : (run reg bucketSecs l).Settled) :
    RowsExact bucketSecs (recorded l) (run reg bucketSecs l).db := by
  have hiff := @rowsExact_iff reg bucketSecs l []
  rw [List.append_nil] at hiff
  refine (hiff hdrop rfl nofun hsettled).mpr ?_
  exact (Run.guarded_of_forall (p := fun a => a ≠ .commit false) _ hcommit).mono
    fun s a ha hf => absurd hf ha

/-- An edge row has the ends of the packets it counts. -/
theorem edgeRow_ends (reg : Registry) (bucketSecs : Int) (l : List Action) (k : EdgeKey)
    (r : EdgeRow) (hl : (run reg bucketSecs l).db.edges.lookup k = some r) :
    ∃ ev ∈ recorded l, ev.captureID = k.captureID ∧ ev.edge = (k.id, r.fromID, r.toID) := by
  have hends := edgeEnds_run (P := fun k f t => ∃ ev ∈ recorded l, ev.captureID = k.captureID
    ∧ ev.edge = (k.id, f, t)) reg bucketSecs fun ev hev => ⟨ev, hev, rfl, rfl⟩
  exact hends.rows k r hl

/--
Once everything is flushed and every transaction committed, the window over all
buckets of a capture, whatever the order of its rows, returns the edges and the
nodes of the cumulative rows, with the same ends, names and counters.
-/
theorem windowAggregates_perm (reg : Registry) (bucketSecs captureID : Int)
    (hdrop : ∀ a ∈ l, ∀ id, a ≠ .dropCapture id) (hcommit : ∀ a ∈ l, a ≠ .commit false)
    (hclean : ∀ ev ∈ recorded l, ev.captureID = captureID → ev.Clean)
    (hnamed : ∀ ev ∈ recorded l, ev.captureID = captureID → ev.named = true)
    (hsettled : (run reg bucketSecs l).Settled) {rows : List WindowScan.Row}
    (hrows : rows.Perm (((run reg bucketSecs l).db.windowRows captureID
      ((run reg bucketSecs l).db.bucketBounds captureID).1
      (((run reg bucketSecs l).db.bucketBounds captureID).2 + 1)).entries.map
        fun e => (e.1, e.2))) :
    let db := (run reg bucketSecs l).db
    let window := db.scanRows reg captureID rows
    let stored := db.loadAggregates captureID
    (window.1.map StoredNode.totals).Perm (stored.1.map StoredNode.totals)
      ∧ (window.2.map StoredEdge.totals).Perm (stored.2.map StoredEdge.totals) := by
  have hexact := rowsExact_settled reg bucketSecs hdrop hcommit hsettled
  have hends := edgeRow_ends reg bucketSecs l
  generalize (run reg bucketSecs l).db = db at *
  have hwindow := DB.scanRows_aggregates reg hexact.1 hclean hrows
  rw [inWindow_all hexact.1 hnamed] at hwindow
  have hstored := DB.loadAggregates_aggregates hexact hends hclean
  refine ⟨?_, hwindow.edges_perm hstored⟩
  exact hwindow.nodes_perm hstored
    (fun id => ((hostnamesOf (db.nodeRows captureID)).lookup id).getD "")
    (fun n hn => DB.scanRows_hostname reg db captureID rows hn)
    fun n hn => (hostnamesOf_lookup (db.nodeRows_nodup captureID) hn).symm

/-- Recording a packet does not wake the writer. -/
theorem record_phase (reg : Registry) (s : Store) (ev : PacketEvent) :
    (step reg s (.record ev)).phase = s.phase := by
  simp only [step]
  split <;> rfl

/-- After a ticker flush that commits the writer waits again. -/
theorem flush_phase (reg : Registry) {s : Store} (hp : s.phase = .select) :
    (step reg (step reg s .tick) (.commit true)).phase = .select := by
  simp only [step, hp, beginFlush]
  by_cases h : s.pending = [] ∧ s.agg.snapshot.1.Empty
  · rw [if_pos h]
    rfl
  · rw [if_neg h]
    rfl

/-- Two packets of one pair with two protocols, one to itself, and a flush in between. -/
def mixedRun : List Action :=
  [.record onePacket, .tick, .commit true,
    .record { onePacket with ts := 90000000000, proto := "HTTP" },
    .record { onePacket with dst := "a" }, .tick, .commit true]

theorem windowAggregates_perm_mixed :
    let db := (run (Registry.ofList [protocolTCP]) 60 mixedRun).db
    let window := db.scanRows (Registry.ofList [protocolTCP]) 1
      ((db.windowRows 1 (db.bucketBounds 1).1 ((db.bucketBounds 1).2 + 1)).entries.map
        fun e => (e.1, e.2))
    let stored := db.loadAggregates 1
    (window.1.map StoredNode.totals).Perm (stored.1.map StoredNode.totals)
      ∧ (window.2.map StoredEdge.totals).Perm (stored.2.map StoredEdge.totals) := by
  have hsettled : ∀ s : Store, s.phase = .select →
      (Run.exec (step (Registry.ofList [protocolTCP])) s mixedRun).Settled := by
    intro s hs
    simp only [mixedRun, Run.exec_cons, Run.exec_nil]
    refine settled_tick ?_
    rw [record_phase, record_phase, flush_phase]
    rw [record_phase, hs]
  have hends : ∀ ev ∈ recorded mixedRun, ev.Clean ∧ ev.named = true := by
    have hab : SepFree "a" ∧ SepFree "b" := by decide
    intro ev hev
    simp only [recorded, mixedRun, List.filterMap_cons, List.filterMap_nil, onePacket] at hev
    simp only [Int.reduceEq, if_false, List.mem_cons, List.not_mem_nil, or_false] at hev
    rcases hev with rfl | rfl | rfl
    · exact ⟨⟨hab.1, hab.2⟩, by decide⟩
    · exact ⟨⟨hab.1, hab.2⟩, by decide⟩
    · exact ⟨⟨hab.1, hab.1⟩, by decide⟩
  refine windowAggregates_perm (Registry.ofList [protocolTCP]) 60 1 (by simp [mixedRun])
    (by simp [mixedRun]) (fun ev hev _ => (hends ev hev).1) (fun ev hev _ => (hends ev hev).2)
    (hsettled (openStore 60) rfl) (.refl _)

end Store

end Etherchimp
