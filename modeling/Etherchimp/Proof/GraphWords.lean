import Etherchimp.Proof.Adjacency
import Etherchimp.Proof.GivenNames
import Etherchimp.Proof.SearchNodes
import Etherchimp.Proof.ViewEdges
import Etherchimp.Proof.NodeCap
import Etherchimp.Proof.Replica

/-!
# Every view of a graph can be sent

A node id is a word the graph was handed, as an address, a name or a MAC, or the
label of a group address. So what is asked of the words is true of the ids. Words
without a slash keep hosts apart from supernodes, and words without the separator
keep edge ids apart: then every view that is built of the graph has distinct ids,
and none of its edges leads outside.
-/

namespace Etherchimp

open Manager

/-- The texts a call hands to the graph as ids or names. -/
def Op.Words (A : String → Prop) : Op → Prop
  | .addOrUpdateNode ip hostname _ _ => A ip ∧ A hostname
  | .ingest pkt srcHostname dstHostname _ =>
      A pkt.srcIP ∧ A pkt.dstIP ∧ A srcHostname ∧ A dstHostname ∧ A pkt.srcMAC ∧ A pkt.dstMAC
  | .bulkLoad _ nodes _ _ => ∀ n ∈ nodes, A n.id ∧ A n.hostname
  | .addOrUpdateEdge .. | .removeStaleNodes .. | .removeStaleEdges .. | .clear => True

/-- Every node is keyed by a word and has words for addresses, and every name leads to a word. -/
structure Worded (A : String → Prop) (m : Manager) : Prop where
  nodes : ∀ k n, m.nodes.lookup k = some n → A k ∧ ∀ ip ∈ n.ips, A ip
  names : ∀ h id, m.hostnameToNodeID.lookup h = some id → A id

variable {A : String → Prop} {m m' : Manager}

theorem worded_init (A : String → Prop) : Worded A newManager where
  nodes := nofun
  names := nofun

theorem Worded.nodesKept (hk : NodesKept m m')
    (hnames : ∀ h id, m'.hostnameToNodeID.lookup h = some id → A id) (h : Worded A m) :
    Worded A m' where
  nodes k n' hl := by
    obtain ⟨n, hn, hr⟩ := hk.lookup hl
    rw [hr.ips]
    exact h.nodes k n hn
  names := hnames

theorem Worded.namesKept (hk : NamesKept m m') (h : Worded A m) : Worded A m' where
  nodes k n' hl := by
    obtain ⟨n, hn, hr⟩ := hk.nodes.lookup hl
    rw [hr.ips]
    exact h.nodes k n hn
  names a id hl := h.names a id (hk.hostnames ▸ hl)

/-- Nodes and names may disappear. -/
theorem Worded.fewer (hn : ∀ k n, m'.nodes.lookup k = some n → m.nodes.lookup k = some n)
    (hh : ∀ a id, m'.hostnameToNodeID.lookup a = some id → m.hostnameToNodeID.lookup a = some id)
    (h : Worded A m) : Worded A m' where
  nodes k n hl := h.nodes k n (hn k n hl)
  names a id hl := h.names a id (hh a id hl)

variable [RuneCase]

theorem worded_upheld (hlabels : ∀ label ∈ groupLabels, A label) :
    Upheld A (fun _ _ _ => True) (Worded A) where
  touched ht h := by
    refine h.nodesKept ht.nodesKept fun a id hl => ?_
    rcases ht.names a id hl with hl | ⟨n', hn'⟩
    · exact h.names a id hl
    · obtain ⟨n, hn, -⟩ := ht.nodes.lookup hn'
      exact (h.nodes id n hn).1
  admissible h hl := h.nodes _ _ hl
  claim hname h := by
    refine h.nodesKept (claimHostname_kept _ _ _).toNodesKept fun a id hl => ?_
    unfold claimHostname at hl
    split at hl
    · rename_i hu
      rw [KeyedMap.lookup_insert_eq] at hl
      split at hl
      · cases hl
        exact hname hu.1
      · exact h.names a id hl
    · exact h.names a id hl
  merge hne hnew _ h := by
    refine ⟨fun k n hl => ?_, h.names⟩
    rw [mergeNodeInto_nodes hne] at hl
    split at hl
    · cases hl
    · split at hl
      · rename_i hk
        refine ⟨hk ▸ hnew, fun ip hip => ?_⟩
        rcases (mem_mergedNode_ips hl ip).mp hip with ⟨n₁, hn₁, h₁⟩ | ⟨n₂, hn₂, h₂⟩
        · exact (h.nodes _ n₁ hn₁).2 ip h₁
        · exact (h.nodes _ n₂ hn₂).2 ip h₂
      · exact h.nodes k n hl
  labels hl := hlabels _ (groupAddressLabel_mem hl)
  named h hl := h.names _ _ hl
  endpoint {m nodeID ip hostname bytes now} hid hip h := by
    obtain ⟨node, hnodes, hspec⟩ := countEndpoint_nodes m nodeID ip hostname bytes now
    refine ⟨fun k n hl => ?_, by rw [countEndpoint_names]; exact h.names⟩
    rw [hnodes, KeyedMap.lookup_insert_eq] at hl
    split at hl
    · rename_i hk
      cases hl
      refine ⟨hk ▸ hid, ?_⟩
      cases hn : m.nodes.lookup nodeID with
      | none =>
        rw [hn] at hspec
        rw [hspec.2.1]
        exact fun a ha => List.mem_singleton.mp ha ▸ hip
      | some n₀ =>
        rw [hn] at hspec
        rw [hspec.2.1]
        exact (h.nodes nodeID n₀ hn).2
    · exact h.nodes k n hl
  packet _ _ h := h.namesKept (addOrUpdateEdgeLocked_namesKept ..)

theorem Worded.addOrUpdateNode (hlabels : ∀ label ∈ groupLabels, A label) {ip hostname : String}
    (bytes : Nat) (now : Int) (hip : A ip) (hname : A hostname) (h : Worded A m) :
    Worded A (m.addOrUpdateNodeLocked ip hostname bytes now) :=
  (worded_upheld hlabels).addOrUpdateNode bytes now hip hname (fun _ _ => trivial) h

omit [RuneCase] in
theorem Worded.bulkEdge (reg : Registry) (e : BulkEdge) (now : Int) (h : Worded A m) :
    Worded A (m.bulkEdge reg e now) := by
  refine h.nodesKept (bulkEdge_nodesKept reg m e now) fun a id hl => h.names a id ?_
  unfold Manager.bulkEdge at hl
  dsimp only at hl
  split at hl
  · exact hl
  · generalize getCanonicalEdgeID (m.resolve e.fromID) (m.resolve e.toID) = c at hl
    rw [← (addPeersLocked_namesKept m c.2.1 c.2.2).hostnames]
    split at hl <;> exact hl

theorem Worded.bulkLoad (hlabels : ∀ label ∈ groupLabels, A label) (reg : Registry)
    {nodes : List BulkNode} (edges : List BulkEdge) (clock : Nat → Int)
    (hrows : ∀ n ∈ nodes, A n.id ∧ A n.hostname) (h : Worded A m) :
    Worded A (m.bulkLoad reg nodes edges clock) := by
  have hnodes : Worded A (m.bulkNodes nodes clock) := by
    refine Run.invariant h (fun m r hm hr => ?_)
      (Run.guarded_of_forall (p := fun r => r ∈ nodes.zipIdx) m fun r hr => hr)
    have hrow := hrows r.1 (List.fst_mem_of_mem_zipIdx hr)
    exact hm.addOrUpdateNode hlabels 0 (clock r.2) hrow.1 hrow.2
  have hcounted : Worded A { m.bulkNodes nodes clock with
      dirty := true
      nodes := (nodes.foldl (overwriteCounters { m.bulkNodes nodes clock with dirty := true })
        ((m.bulkNodes nodes clock).nodes, [])).1 } := by
    refine ⟨fun k n hl => ?_, hnodes.names⟩
    have hkept := overwriteAll_nodes { m.bulkNodes nodes clock with dirty := true } nodes
      ((m.bulkNodes nodes clock).nodes, []) k
    rw [show _ = some n from hl] at hkept
    obtain ⟨n₀, hn₀, he⟩ := Option.map_eq_some_iff.mp hkept.symm
    rw [← (Prod.mk.inj he).2]
    exact hnodes.nodes k n₀ hn₀
  exact Run.invariant hcounted (fun m r hm _ => hm.bulkEdge reg r.1 (clock (nodes.length + r.2)))
    (Run.guarded_true _ edges.zipIdx)

omit [RuneCase] in
theorem Worded.removeNode (node : Node) (h : Worded A m) : Worded A (m.removeNode node) := by
  refine h.fewer (fun k n hl => ?_) fun a id hl => ?_
  · have hl : (m.nodes.erase node.ip).lookup k = some n := hl
    rw [KeyedMap.lookup_erase_eq] at hl
    split at hl
    · cases hl
    · exact hl
  · have herase : ∀ {t : KeyedMap String String} {k : String},
        (t.erase k).lookup a = some id → t.lookup a = some id := by
      intro t k hl
      rw [KeyedMap.lookup_erase_eq] at hl
      split at hl
      · cases hl
      · exact hl
    have hl := herase (t := if node.hostname ≠ "" ∧ node.hostname ≠ node.ip then
      m.hostnameToNodeID.erase node.hostname else m.hostnameToNodeID) (k := node.ip) hl
    split at hl
    · exact herase hl
    · exact hl

omit [RuneCase] in
theorem Worded.removeStaleNodes (threshold now : Int) (h : Worded A m) :
    Worded A (m.removeStaleNodes threshold now).1 := by
  unfold Manager.removeStaleNodes
  dsimp only
  refine Run.invariant ?_ (fun _ node hm _ => Worded.removeNode node hm) (Run.guarded_true _ _)
  split
  · exact ⟨h.nodes, h.names⟩
  · exact h

omit [RuneCase] in
theorem Worded.removeStaleEdges (threshold now : Int) (h : Worded A m) :
    Worded A (m.removeStaleEdges threshold now).1 := by
  unfold Manager.removeStaleEdges
  dsimp only
  have hdrop : ∀ (m : Manager) (e : Edge), Worded A m → True → Worded A (m.removeEdge e) :=
    fun _ _ hm _ => ⟨hm.nodes, hm.names⟩
  refine Run.invariant ?_ hdrop (Run.guarded_true _ _)
  split
  · exact ⟨h.nodes, h.names⟩
  · exact h

/-- One call whose texts are words keeps the ids words. -/
theorem worded_step (hlabels : ∀ label ∈ groupLabels, A label) {op : Op} (hop : op.Words A)
    (h : Worded A m) : Worded A (op.apply m) := by
  cases op with
  | addOrUpdateNode ip hostname bytes now => exact h.addOrUpdateNode hlabels bytes now hop.1 hop.2
  | addOrUpdateEdge srcIP dstIP protocol bytes now =>
    exact h.namesKept (addOrUpdateEdgeLocked_namesKept ..)
  | ingest pkt srcHostname dstHostname clock =>
    obtain ⟨hsrc, hdst, hsh, hdh, hsm, hdm⟩ := hop
    exact (worded_upheld hlabels).ingest m ⟨pkt, srcHostname, dstHostname, clock⟩
      ⟨hsrc, hdst, hsh, hdh, fun _ _ _ => hsm, fun _ _ _ => hdm⟩
      (merges_true [⟨pkt, srcHostname, dstHostname, clock⟩] m).1 h
  | bulkLoad reg nodes edges clock => exact h.bulkLoad hlabels reg edges clock hop
  | removeStaleNodes threshold now => exact h.removeStaleNodes threshold now
  | removeStaleEdges threshold now => exact h.removeStaleEdges threshold now
  | clear => exact h.fewer (fun _ _ hl => by cases hl) fun _ _ hl => by cases hl

/-! ## Snapshots -/

/-- A word that names no supernode and splits no edge id. -/
structure IDWord (s : String) : Prop where
  slash : '/' ∉ s.toList
  sepFree : SepFree s

instance (s : String) : Decidable (IDWord s) :=
  decidable_of_iff ('/' ∉ s.toList ∧ SepFree s) ⟨fun h => ⟨h.1, h.2⟩, fun h => ⟨h.1, h.2⟩⟩

omit [RuneCase] in
theorem groupLabels_idWord : ∀ label ∈ groupLabels, IDWord label := by decide

/-- What a view asks of the snapshot it is built from. -/
structure RawSnapshot.WellFormed (raw : RawSnapshot) : Prop where
  nodes : (raw.nodes.map Node.ip).Nodup
  words : ∀ n ∈ raw.nodes, IDWord n.ip
  edges : (raw.edges.map Edge.id).Nodup
  canonical : ∀ e ∈ raw.edges, e.Canonical

omit [RuneCase] in
/-- The values of a table whose values know their keys have distinct keys. -/
theorem nodup_values {α : Type} {key : α → String} {t : KeyedMap String α}
    (hkey : ∀ k x, t.lookup k = some x → key x = k) :
    ((t.entries.map fun e => e.2).map key).Nodup := by
  have hkeys : ((t.entries.map fun e => e.2).map key) = t.keys := by
    rw [List.map_map]
    refine List.map_congr_left fun e he => ?_
    exact hkey e.1 e.2 (AList.mem_lookup_iff.mpr he)
  rw [hkeys]
  exact t.keys_nodup

/-- The ids are words, every node and every edge is under its id, and edges are canonical. -/
structure Manager.InOrder (m : Manager) : Prop where
  worded : Worded IDWord m
  searchable : AllSearchable m.nodes
  adjacency : AdjacencyExact m

theorem inOrder_init : newManager.InOrder where
  worded := worded_init IDWord
  searchable := allSearchable_empty
  adjacency := indexed_empty

theorem Manager.InOrder.step {op : Op} (hop : op.Words IDWord) (h : m.InOrder) :
    (op.apply m).InOrder where
  worded := worded_step groupLabels_idWord hop h.worded
  searchable := allSearchable_step m op h.searchable
  adjacency := adjacencyExact_step m op h.adjacency

theorem Manager.InOrder.of_eq (hn : m'.nodes = m.nodes) (he : m'.edges = m.edges)
    (hx : m'.edgesByNode = m.edgesByNode) (hh : m'.hostnameToNodeID = m.hostnameToNodeID)
    (h : m.InOrder) : m'.InOrder where
  worded := ⟨hn ▸ h.worded.nodes, hh ▸ h.worded.names⟩
  searchable := hn ▸ h.searchable
  adjacency := h.adjacency.of_eq he hx

theorem Manager.InOrder.snapshot (h : m.InOrder) : m.snapshotRaw.WellFormed where
  nodes := nodup_values fun k n hl => (h.searchable k n hl).keyed
  words n hn := by
    obtain ⟨e, he, rfl⟩ := List.mem_map.mp hn
    have hl : m.nodes.lookup e.1 = some e.2 := AList.mem_lookup_iff.mpr he
    rw [(h.searchable e.1 e.2 hl).keyed]
    exact (h.worded.nodes e.1 e.2 hl).1
  edges := nodup_values fun k e hl => (h.adjacency.canonical k e hl).1
  canonical edge hedge := by
    obtain ⟨e, he, rfl⟩ := List.mem_map.mp hedge
    obtain ⟨hid, hcanon⟩ := h.adjacency.canonical e.1 e.2 (AList.mem_lookup_iff.mpr he)
    unfold Edge.Canonical
    rw [hid]
    exact hcanon

/-! ## The cut repeats no id -/

omit [RuneCase] in
theorem takeProtected_sublist (protect : KeyedMap String Bool) (cap : Nat) (kept : List Node) :
    (takeProtected protect cap kept).1.Sublist kept := by
  induction kept using List.reverseRecOn with
  | nil => exact List.Sublist.slnil
  | append_singleton kept n ih =>
    rw [takeProtected, List.foldl_concat, ← takeProtected]
    split
    · exact ih.append_right [n]
    · exact ih.trans (List.sublist_append_left kept [n])

omit [RuneCase] in
/-- The second loop looks an id up before it takes it. -/
theorem fillUp_nodup (cap : Nat) {t : Taken} (ht : Seen t) (hnd : (t.1.map Node.ip).Nodup)
    (kept : List Node) : ((fillUp cap t kept).1.map Node.ip).Nodup := by
  induction kept using List.reverseRecOn with
  | nil => exact hnd
  | append_singleton kept n ih =>
    have hseen : Seen (fillUp cap t kept) := (fillUp_filled ht kept).seen
    rw [fillUp, List.foldl_concat, ← fillUp]
    split
    · exact ih
    · split
      · exact ih
      · rename_i hnew
        rw [takeNode, List.map_append, List.map_singleton]
        refine ih.append (List.nodup_singleton _) fun id hid hn => hnew ((hseen n.ip).mpr ?_)
        exact List.mem_singleton.mp hn ▸ hid

omit [RuneCase] in
theorem cutNodes_nodup (cfg : ViewConfig) (s : Folding) {kept : List Node}
    (hnd : (kept.map Node.ip).Nodup) : ((cutNodes cfg s kept).map Node.ip).Nodup := by
  unfold cutNodes
  dsimp only
  split
  · exact hnd
  · split
    · exact hnd.sublist ((List.take_sublist _ _).map Node.ip)
    · exact fillUp_nodup _ (takeProtected_took _ _ kept).seen
        (hnd.sublist ((takeProtected_sublist _ _ kept).map Node.ip)) kept

/-! ## Views -/

section View

variable {F : Type} [FloatMath F] (go : Runtime) {raw : RawSnapshot} (cfg : ViewConfig)
  (input : ViewInput F)

omit [RuneCase] in
theorem shownNodes_nodup (hraw : raw.WellFormed) :
    ((input.shownNodes go raw cfg).map Node.ip).Nodup := by
  have hc := clearNames (isGroupNode input.overrides) raw cfg hraw.nodes fun n hn =>
    (hraw.words n hn).slash
  obtain ⟨content, hrep⟩ : ∃ content, Represents (survivors cfg raw) (OpenedFully cfg)
      (input.folding go raw cfg) content := represents_foldedView input.state hc
  refine cutNodes_nodup cfg _ ?_
  refine ((go.sortSlice_perm _ _).map Node.ip).nodup_iff.mpr ?_
  unfold isolate
  split
  · exact hrep.nodup.sublist (List.filter_sublist.map Node.ip)
  · exact hrep.nodup

/-- **The ids of a view are distinct.** -/
theorem RawSnapshot.WellFormed.distinct (hraw : raw.WellFormed) :
    (buildView go raw cfg input).1.Distinct where
  nodes := by
    rw [buildView_ids]
    exact shownNodes_nodup go cfg input hraw
  edges := by
    have h := candidates_shown go raw cfg input hraw.nodes (fun n hn => (hraw.words n hn).slash)
      (fun n hn => (hraw.words n hn).sepFree) hraw.canonical hraw.edges
    have hperm := (go.sortSlice_perm busierEdge (input.shownCandEdges go raw cfg)).map Edge.id
    have hnd : ((input.shownEdges go raw cfg).map Edge.id).Nodup :=
      (hperm.nodup_iff.mpr h.nodup).sublist ((List.take_sublist _ _).map Edge.id)
    show (((input.shownEdges go raw cfg).map viewEdge).map ViewEdge.id).Nodup
    rw [List.map_map]
    exact hnd

/-- **No edge of a view leads outside it.** -/
theorem RawSnapshot.WellFormed.enclosed (hraw : raw.WellFormed) :
    (buildView go raw cfg input).1.Enclosed := fun _ e he =>
  (showsTraffic go raw cfg input hraw.nodes (fun n hn => (hraw.words n hn).slash)
    (fun n hn => (hraw.words n hn).sepFree) hraw.canonical hraw.edges).ends e he

end View

end Etherchimp
