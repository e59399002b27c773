import Etherchimp.Graph.NodeDetail
import Etherchimp.Lib.Cut
import Etherchimp.Proof.Adjacency
import Etherchimp.Proof.Totals

/-!
# What the detail of a node lists

The edges come out of the adjacency index, which is exact in every run, so they are the
edges a scan of the whole map would find at the node. The list is sorted before it is
cut: what is left out is never busier than what is shown.
-/

namespace Etherchimp

open Manager

/-- The edges of a node by a scan of all edges. -/
def Manager.scannedEdges (m : Manager) (id : String) : List Edge :=
  (m.edges.entries.map fun x => x.2).filter (Incident id)

/-- The list is the first `n` of the rows, busiest first. -/
structure Busiest (n : Nat) (rows shown : List NodeDetailEdge) : Prop where
  length : shown.length = min n rows.length
  sorted : shown.Pairwise fun a b => b.packetCount ≤ a.packetCount
  rest : ∃ hidden, (shown ++ hidden).Perm rows
    ∧ ∀ a ∈ shown, ∀ b ∈ hidden, b.packetCount ≤ a.packetCount

theorem busierConnection_preorders : Preorders busierConnection where
  total a b := by
    unfold busierConnection
    rcases Nat.le_total a.packetCount b.packetCount with h | h
    · exact .inl (by simpa using h)
    · exact .inr (by simpa using h)
  trans a b c hab hbc := by
    unfold busierConnection at *
    simp only [decide_eq_false_iff_not, not_lt] at *
    omega

theorem busiest_take (go : Runtime) (n : Nat) (rows : List NodeDetailEdge) :
    Busiest n rows ((go.sortSlice busierConnection rows).take n) := by
  have hsorted : (go.sortSlice busierConnection rows).Pairwise
      fun a b => b.packetCount ≤ a.packetCount :=
    (go.sortSlice_sorted busierConnection_preorders rows).imp fun {a b} hab => by
      unfold busierConnection at hab
      simpa using hab
  refine ⟨?_, hsorted.sublist (List.take_sublist ..), (go.sortSlice busierConnection rows).drop n,
    ?_, ?_⟩
  · rw [List.length_take, go.length_sortSlice]
  · rw [List.take_append_drop]
    exact go.sortSlice_perm _ _
  · intro a ha b hb
    exact Cut.le_of_cut hsorted ha hb

theorem Busiest.perm {n : Nat} {rows rows' shown : List NodeDetailEdge} (h : Busiest n rows shown)
    (hp : rows.Perm rows') : Busiest n rows' shown where
  length := by rw [h.length, hp.length_eq]
  sorted := h.sorted
  rest := by
    obtain ⟨hidden, hperm, hle⟩ := h.rest
    exact ⟨hidden, hperm.trans hp, hle⟩

theorem Busiest.mem {n : Nat} {rows shown : List NodeDetailEdge} (h : Busiest n rows shown)
    {row : NodeDetailEdge} (hr : row ∈ shown) : row ∈ rows := by
  obtain ⟨hidden, hperm, -⟩ := h.rest
  exact hperm.mem_iff.mp (List.mem_append_left _ hr)

/-- What is not among the busiest finds the list full of what is as busy. -/
theorem Busiest.mem_or_full {n : Nat} {rows shown : List NodeDetailEdge} (h : Busiest n rows shown)
    {row : NodeDetailEdge} (hr : row ∈ rows) : row ∈ shown
      ∨ (shown.length = n ∧ ∀ other ∈ shown, row.packetCount ≤ other.packetCount) := by
  obtain ⟨hidden, hperm, hle⟩ := h.rest
  rcases List.mem_append.mp (hperm.mem_iff.mpr hr) with hshown | hhidden
  · exact .inl hshown
  · refine .inr ⟨?_, fun other ho => hle other ho row hhidden⟩
    have hsum := hperm.length_eq
    have hlen := h.length
    have hpos := List.length_pos_of_mem hhidden
    rw [List.length_append] at hsum
    omega

/-! ## The index and the scan -/

section Index

variable {m : Manager} {id : String}

/-- The keys the index has for a node are those of the edges at it. -/
theorem AdjacencyExact.mem_indexed_iff (h : AdjacencyExact m) (k : String) :
    k ∈ ((m.edgesByNode.lookup id).getD ∅) ↔ ∃ e, m.edges.lookup k = some e ∧ Incident id e := by
  cases hl : m.edgesByNode.lookup id with
  | none =>
    refine iff_of_false ?_ (h.exact.absent id hl k)
    exact AList.notMem_empty k
  | some set => exact h.exact.members id set hl k

/-- **Looking in the index is as good as a scan.** -/
theorem AdjacencyExact.indexed_perm_scanned (h : AdjacencyExact m) (go : Runtime) (id : String) :
    (m.indexedEdges go id).Perm (m.scannedEdges id) := by
  generalize hset : (m.edgesByNode.lookup id).getD ∅ = set
  have hfound : ∀ x ∈ m.edges.entries, m.edges.lookup x.1 = some x.2 :=
    fun x hx => (KeyedMap.mem_entries_iff m.edges x.1 x.2).mp hx
  have hscan : m.scannedEdges id
      = ((m.edges.entries.filter fun x => Incident id x.2).map (·.1)).filterMap m.edges.lookup := by
    have hvalue : ∀ x ∈ m.edges.entries.filter (fun x => Incident id x.2),
        (m.edges.lookup ∘ fun x => x.1) x = (some ∘ fun x => x.2) x :=
      fun x hx => hfound x (List.mem_of_mem_filter hx)
    rw [List.filterMap_map, List.filterMap_congr hvalue, List.filterMap_eq_map, scannedEdges,
      List.filter_map]
    rfl
  have hindex : m.indexedEdges go id
      = ((go.rangeOf set).map (·.1)).filterMap m.edges.lookup := by
    rw [List.filterMap_map, indexedEdges, hset]
    rfl
  rw [hindex, hscan]
  refine List.Perm.filterMap _ ((List.perm_ext_iff_of_nodup ?_ ?_).mpr fun k => ?_)
  · exact ((go.rangeOf_perm set).map _).nodup_iff.mpr set.nodupKeys
  · exact (List.filter_sublist.map _).nodup m.edges.nodupKeys
  · have hkeys : k ∈ (go.rangeOf set).map (·.1) ↔ k ∈ set := by
      rw [((go.rangeOf_perm set).map _).mem_iff]
      rfl
    rw [hkeys, ← hset, h.mem_indexed_iff]
    constructor
    · rintro ⟨e, he, hi⟩
      have hentry := (KeyedMap.mem_entries_iff m.edges k e).mpr he
      exact List.mem_map.mpr ⟨⟨k, e⟩, List.mem_filter.mpr ⟨hentry, decide_eq_true hi⟩, rfl⟩
    · intro hk
      obtain ⟨x, hx, rfl⟩ := List.mem_map.mp hk
      obtain ⟨hx, hi⟩ := List.mem_filter.mp hx
      exact ⟨x.2, hfound x hx, of_decide_eq_true hi⟩

/-- The connection as the other end lists it. -/
def NodeDetailEdge.reversed (row : NodeDetailEdge) (id : String) : NodeDetailEdge :=
  { row with peer := id, outbound := !row.outbound }

/-- An edge is listed at both its ends, the other way round. -/
theorem detailEdge_reversed {id : String} {e : Edge} (hi : Incident id e)
    (hne : (detailEdge id e).peer ≠ id) : Incident (detailEdge id e).peer e
      ∧ detailEdge (detailEdge id e).peer e = (detailEdge id e).reversed id := by
  unfold detailEdge NodeDetailEdge.reversed at *
  dsimp only at *
  by_cases ht : e.toID = id
  · rw [if_pos ht] at hne ⊢
    have hback : e.toID ≠ e.fromID := fun heq => hne (heq.symm.trans ht)
    exact ⟨.inl rfl, by rw [if_neg hback, ht]; simp [hne.symm]⟩
  · rw [if_neg ht]
    have hf : e.fromID = id := hi.resolve_right ht
    exact ⟨.inr rfl, by rw [if_pos rfl, hf]; simp [ht]⟩

/-- An edge from a node to itself is listed as coming in. -/
theorem detailEdge_self {id : String} {e : Edge}
    (hself : (detailEdge id e).peer = id) : (detailEdge id e).outbound = false := by
  unfold detailEdge at *
  dsimp only at *
  by_cases ht : e.toID = id
  · rw [decide_eq_false (not_not_intro ht)]
  · rw [if_neg ht] at hself
    exact absurd hself ht

theorem mem_scannedEdges {id : String} {e : Edge} :
    e ∈ m.scannedEdges id ↔ (∃ key, m.edges.lookup key = some e) ∧ Incident id e := by
  unfold scannedEdges
  rw [List.mem_filter, List.mem_map, decide_eq_true_eq]
  refine and_congr_left fun _ => ?_
  constructor
  · rintro ⟨x, hx, rfl⟩
    exact ⟨x.1, (KeyedMap.mem_entries_iff _ _ _).mp hx⟩
  · rintro ⟨key, hk⟩
    exact ⟨⟨key, e⟩, (KeyedMap.mem_entries_iff _ _ _).mpr hk, rfl⟩

/-- Two edges at a node go to different peers. -/
theorem WellKeyed.peers_nodup (h : WellKeyed m.edges) (id : String) :
    ((m.scannedEdges id).map fun e => (detailEdge id e).peer).Nodup := by
  have hends : ∀ x ∈ m.edges.entries, Incident id x.2 →
      x.1 = canonKey id (detailEdge id x.2).peer := by
    intro x hx hi
    obtain ⟨hkey, -⟩ := h.between_ends ((KeyedMap.mem_entries_iff _ _ _).mp hx)
    unfold detailEdge
    dsimp only
    by_cases ht : x.2.toID = id
    · rw [if_pos ht, hkey, ht, canonKey_comm]
    · rw [if_neg ht, hkey, hi.resolve_right ht]
  have hscan : (m.scannedEdges id).map (fun e => (detailEdge id e).peer)
      = (m.edges.entries.filter fun x => Incident id x.2).map fun x => (detailEdge id x.2).peer := by
    rw [scannedEdges, List.filter_map, List.map_map]
    rfl
  rw [hscan]
  refine (m.edges.nodupKeys.nodup.filter _).map_on fun x hx y hy hxy => ?_
  obtain ⟨hx, hix⟩ := List.mem_filter.mp hx
  obtain ⟨hy, hiy⟩ := List.mem_filter.mp hy
  have hkey : x.1 = y.1 := by
    rw [hends x hx (of_decide_eq_true hix), hends y hy (of_decide_eq_true hiy)]
    exact congrArg (canonKey id) hxy
  exact m.edges.nodupKeys.eq_of_fst_eq hx hy hkey

/-- A row is about the edge between the two ids. -/
theorem WellKeyed.between_row (h : WellKeyed m.edges) {id : String} {e : Edge}
    (he : e ∈ m.scannedEdges id) :
    between m.edges id (detailEdge id e).peer = some e := by
  obtain ⟨⟨key, hl⟩, hi⟩ := mem_scannedEdges.mp he
  obtain ⟨-, hbt⟩ := h.between_ends hl
  unfold detailEdge
  dsimp only
  by_cases ht : e.toID = id
  · rw [if_pos ht, between_comm, ← ht, hbt]
  · rw [if_neg ht, ← hi.resolve_right ht, hbt]

/-- The MAC identifies the node and no other. -/
def Manager.Identifies (m : Manager) (id mac : String) : Prop :=
  (m.macToNodeID.lookup mac).getD "" = id ∧ m.isShared mac = false

theorem primaryMAC_identifies {id mac : String} {macs : List String} (hmac : mac ∈ macs)
    (h : m.Identifies id mac) :
    m.primaryMAC id macs ∈ macs ∧ m.Identifies id (m.primaryMAC id macs) := by
  unfold primaryMAC
  cases hf : macs.find? fun mc => (m.macToNodeID.lookup mc).getD "" = id ∧ ¬ m.isShared mc with
  | none =>
    have hnot := List.find?_eq_none.mp hf mac hmac
    rw [decide_eq_true_eq, h.2] at hnot
    exact absurd ⟨h.1, Bool.false_ne_true⟩ hnot
  | some mc =>
    have hmc := List.find?_some hf
    rw [decide_eq_true_eq, Bool.not_eq_true] at hmc
    exact ⟨List.mem_of_find?_eq_some hf, hmc⟩

end Index

section Counts

variable {evs : List Endpoint} {pkts : List PacketInfo} {m : Manager}

theorem Totals.edge_count (h : Totals evs pkts m) {a b : String} (ha : SepFree a) (hb : SepFree b)
    (hab : a ≠ b) {e : Edge} (he : between m.edges a b = some e) :
    e.packetCount = (pkts.filter (joins m a b)).length
      ∧ e.byteCount = ((pkts.filter (joins m a b)).map PacketInfo.length).sum := by
  have hload := h.edges a b ha hb hab
  rw [he] at hload
  exact load_eq (fun _ => rfl) hload

/-- An id that a packet resolves to is a node's. -/
theorem Totals.joins_clean (h : Totals evs pkts m) {a b : String} {pkt : PacketInfo}
    (hj : joins m a b pkt) : CleanID b := by
  obtain ⟨n, hn⟩ : ∃ n, m.nodes.lookup b = some n := by
    unfold joins along at hj
    simp only [Bool.or_eq_true, decide_eq_true_eq] at hj
    rcases hj with ⟨-, hb⟩ | ⟨hb, -⟩ <;> exact h.resolves _ b hb
  exact (h.clean b n hn).1

end Counts

/-! ## The record -/

section Record

variable [RuneCase] {go : Runtime} {ouiData query : String} {m : Manager} {d : NodeDetail}

/-- The figures are the node's. -/
structure NodeDetail.Describes (d : NodeDetail) (n : Node) : Prop where
  ips : d.ips = n.ips
  macs : d.macs = n.macs
  packetCount : d.packetCount = n.packetCount
  byteCount : d.byteCount = n.byteCount
  isGroup : d.isGroup = n.isGroup
  lastSeen : d.lastSeen = n.lastSeen

theorem getNodeDetail_spec (h : getNodeDetail go ouiData m query = some d) :
    d.id = m.canonicalID query ∧ d.primaryMAC = m.primaryMAC d.id d.macs
      ∧ d.edges = (go.sortSlice busierConnection
          ((m.indexedEdges go d.id).map (detailEdge d.id))).take maxDetailEdges
      ∧ ∃ n, m.nodes.lookup d.id = some n ∧ d.Describes n := by
  unfold getNodeDetail at h
  obtain ⟨n, hn, rfl⟩ := Option.map_eq_some_iff.mp h
  exact ⟨rfl, rfl, rfl, n, hn, ⟨rfl, rfl, rfl, rfl, rfl, rfl⟩⟩

/-- There is a record for whatever stands for a node. -/
theorem getNodeDetail_isSome_iff :
    (getNodeDetail go ouiData m query).isSome
      ↔ (∃ n, m.nodes.lookup (m.canonicalID query) = some n) := by
  unfold getNodeDetail
  rw [Option.isSome_map, Option.isSome_iff_exists]

/-- The record lists the busiest of what a scan finds. -/
theorem AdjacencyExact.busiest (hm : AdjacencyExact m)
    (h : getNodeDetail go ouiData m query = some d) :
    Busiest maxDetailEdges ((m.scannedEdges d.id).map (detailEdge d.id)) d.edges := by
  rw [(getNodeDetail_spec h).2.2.1]
  exact (busiest_take go _ _).perm ((hm.indexed_perm_scanned go d.id).map _)

/--
What a record says: the figures of its node, a MAC that is the node's own when it has
one, the busiest connections, and each of these that goes to another node the other way
round in the record of its other end, unless that one is full of connections as busy. A
node's connection with itself has one end only and counts as inbound.
-/
structure NodeDetail.Right (d : NodeDetail) (go : Runtime) (ouiData : String) (m : Manager) :
    Prop where
  node : ∃ n, m.nodes.lookup d.id = some n ∧ d.Describes n
  identified : ∀ mac ∈ d.macs, m.Identifies d.id mac →
    d.primaryMAC ∈ d.macs ∧ m.Identifies d.id d.primaryMAC
  busiest : Busiest maxDetailEdges ((m.scannedEdges d.id).map (detailEdge d.id)) d.edges
  otherEnd : ∀ row ∈ d.edges, row.peer ≠ d.id → ∀ query d',
    getNodeDetail go ouiData m query = some d' → d'.id = row.peer →
    row.reversed d.id ∈ d'.edges
      ∨ (d'.edges.length = maxDetailEdges ∧ ∀ other ∈ d'.edges, row.packetCount ≤ other.packetCount)
  withItself : ∀ row ∈ d.edges, row.peer = d.id → row.outbound = false

theorem AdjacencyExact.right (hm : AdjacencyExact m)
    (h : getNodeDetail go ouiData m query = some d) : d.Right go ouiData m := by
  obtain ⟨-, hmac, -, hnode⟩ := getNodeDetail_spec h
  refine ⟨hnode, fun mac hm hid => ?_, hm.busiest h, ?_, fun row hrow hself => ?_⟩
  · rw [hmac]
    exact primaryMAC_identifies hm hid
  · intro row hrow hne query' d' h' hid'
    obtain ⟨e, he, rfl⟩ := List.mem_map.mp ((hm.busiest h).mem hrow)
    obtain ⟨hkey, hi⟩ := mem_scannedEdges.mp he
    obtain ⟨hi', hrev⟩ := detailEdge_reversed hi hne
    have hother : (detailEdge d.id e).reversed d.id
        ∈ (m.scannedEdges d'.id).map (detailEdge d'.id) := by
      rw [hid', ← hrev]
      exact List.mem_map_of_mem (mem_scannedEdges.mpr ⟨hkey, hi'⟩)
    exact (hm.busiest h').mem_or_full hother
  · obtain ⟨e, he, rfl⟩ := List.mem_map.mp ((hm.busiest h).mem hrow)
    exact detailEdge_self hself

/--
The counters a record should show after a history: those of the endpoints that resolve
to its node, one row a peer with the packets between the two, and no peer left out but
for others with as many. What a node exchanges with itself is not among them: when two of
its ids are merged, the edge between these is dropped with what it had counted.
-/
structure NodeDetail.Counted (d : NodeDetail) (evs : List Endpoint) (pkts : List PacketInfo)
    (m : Manager) : Prop where
  own : d.packetCount = (evs.filter (resolvesTo m d.id)).length
    ∧ d.byteCount = ((evs.filter (resolvesTo m d.id)).map Endpoint.bytes).sum
  peers : (d.edges.map (·.peer)).Nodup
  rows : ∀ row ∈ d.edges, row.peer ≠ d.id →
    row.packetCount = (pkts.filter (joins m d.id row.peer)).length
      ∧ row.byteCount = ((pkts.filter (joins m d.id row.peer)).map PacketInfo.length).sum
  listed : ∀ peer, peer ≠ d.id → (∃ pkt ∈ pkts, joins m d.id peer pkt) →
    (∃ row ∈ d.edges, row.peer = peer)
      ∨ (d.edges.length = maxDetailEdges ∧
        ∀ row ∈ d.edges, (pkts.filter (joins m d.id peer)).length ≤ row.packetCount)

variable {evs : List Endpoint} {pkts : List PacketInfo}

theorem Totals.counted (h : Totals evs pkts m) (hx : AdjacencyExact m)
    (hd : getNodeDetail go ouiData m query = some d) : d.Counted evs pkts m := by
  obtain ⟨-, -, -, n, hn, hfigures⟩ := getNodeDetail_spec hd
  have hid : SepFree d.id := (h.clean d.id n hn).1.2
  have hb := hx.busiest hd
  have hrow : ∀ row ∈ d.edges, ∃ e ∈ m.scannedEdges d.id, detailEdge d.id e = row :=
    fun row hr => List.mem_map.mp (hb.mem hr)
  refine ⟨?_, ?_, ?_, ?_⟩
  · have hload := h.nodes d.id
    rw [hn] at hload
    rw [hfigures.packetCount, hfigures.byteCount]
    exact load_eq (fun _ => rfl) hload
  · obtain ⟨hidden, hperm, -⟩ := hb.rest
    have hall := (hperm.map (·.peer)).nodup_iff.mpr (by
      rw [List.map_map]
      exact h.wellKeyed.peers_nodup d.id)
    rw [List.map_append] at hall
    exact hall.of_append_left
  · intro row hr hne
    obtain ⟨e, he, rfl⟩ := hrow row hr
    have hbt := h.wellKeyed.between_row he
    have hpeer : SepFree (detailEdge d.id e).peer := by
      obtain ⟨⟨key, hl⟩, -⟩ := mem_scannedEdges.mp he
      obtain ⟨-, -, hf, ht⟩ := h.wellKeyed key e hl
      unfold detailEdge
      dsimp only
      split
      · exact hf
      · exact ht
    exact h.edge_count hid hpeer hne.symm hbt
  · intro peer hne hpkt
    obtain ⟨pkt, hmem, hj⟩ := hpkt
    have hpeer := (h.joins_clean hj).2
    -- a packet was counted on the edge of the two, so there is one
    cases hbt : between m.edges d.id peer with
    | none =>
      have hload := h.edges d.id peer hid hpeer hne.symm
      rw [hbt] at hload
      obtain ⟨hzero, -⟩ := load_eq (fun _ => rfl) hload
      have hin := List.mem_filter.mpr ⟨hmem, hj⟩
      rw [List.eq_nil_of_length_eq_zero hzero.symm] at hin
      cases hin
    | some e =>
      have hends := h.wellKeyed.endpoints hid hpeer hbt
      have he : e ∈ m.scannedEdges d.id :=
        mem_scannedEdges.mpr ⟨⟨_, hbt⟩, hends.imp And.left And.right⟩
      have hname : (detailEdge d.id e).peer = peer := by
        unfold detailEdge
        dsimp only
        rcases hends with ⟨hf, ht⟩ | ⟨hf, ht⟩
        · rw [if_neg (by rw [ht]; exact hne), ht]
        · rw [if_pos ht, hf]
      rcases hb.mem_or_full (List.mem_map_of_mem he) with hshown | ⟨hfull, hle⟩
      · exact .inl ⟨_, hshown, hname⟩
      · refine .inr ⟨hfull, fun row hr => ?_⟩
        rw [← (h.edge_count hid hpeer hne.symm hbt).1]
        exact hle row hr

/--
**The totals of a record are those of the packets**, whatever the packets renamed and
merged, and every address of a packet finds one.
-/
theorem nodeDetail_counted (go : Runtime) (ouiData : String) (calls : List IngestCall)
    (h : ∀ c ∈ calls, c.Clean) :
    (∀ ev ∈ endpointsOf calls, (getNodeDetail go ouiData (ingestAll calls) ev.ip).isSome)
      ∧ ∀ query d, getNodeDetail go ouiData (ingestAll calls) query = some d →
        d.Counted (endpointsOf calls) (packetsOf calls) (ingestAll calls) := by
  have ht := totals_ledger.run totals_init h (merges_true calls newManager)
  have hx : AdjacencyExact (ingestAll calls) :=
    adjacencyExact_upheld.run indexed_empty
      (fun _ _ => ⟨trivial, trivial, trivial, trivial, fun _ _ _ => trivial, fun _ _ _ => trivial⟩)
      (merges_true calls newManager)
  refine ⟨fun ev hev => ?_, fun query d hd => ht.counted hx hd⟩
  obtain ⟨k, hk⟩ := ht.seen ev hev
  rw [getNodeDetail_isSome_iff, canonicalID]
  by_cases hnode : ((ingestAll calls).nodes.lookup ev.ip).isSome
  · rw [if_pos hnode]
    exact Option.isSome_iff_exists.mp hnode
  · rw [if_neg hnode, hk]
    exact ht.resolves ev.ip k hk

end Record

theorem nodeDetail_counted_renamedHost :
    (∀ ev ∈ endpointsOf renamedHostRun,
        (getNodeDetail Runtime.stable "" (ingestAll renamedHostRun) ev.ip).isSome)
      ∧ ∀ query d, getNodeDetail Runtime.stable "" (ingestAll renamedHostRun) query = some d →
        d.Counted (endpointsOf renamedHostRun) (packetsOf renamedHostRun)
          (ingestAll renamedHostRun) :=
  nodeDetail_counted Runtime.stable "" renamedHostRun (by decide)

end Etherchimp
