import Etherchimp.Graph.SearchNodes
import Etherchimp.Lib.Separator
import Etherchimp.Proof.Attribution

/-!
# A search finds every node by its current names

The haystack of a node is a copy of its id, hostname, addresses and MACs, rebuilt where
one of them changes. `Searchable` is that no such place was missed. The texts stand in
the haystack with a newline between them, so a query of one line stands in it exactly
when it stands in one of the texts, and the search is the scan of all nodes.
-/

namespace Etherchimp

open Manager

section Texts

variable [RuneCase]

/-! ## The haystack is kept -/

/-- The node is stored under its id, with the haystack its fields make now. -/
structure Searchable (id : String) (n : Node) : Prop where
  keyed : n.ip = id
  corpus : n.searchCorpus = (rebuildSearchCorpusLocked n).searchCorpus

/-- Every node is searchable. -/
def AllSearchable (nodes : KeyedMap String Node) : Prop :=
  ∀ id n, nodes.lookup id = some n → Searchable id n

variable {id : String} {n n' : Node} {nodes : KeyedMap String Node} {m : Manager}

/-- A haystack that was just rebuilt is right. -/
theorem searchable_rebuild (h : n.ip = id) : Searchable id (rebuildSearchCorpusLocked n) := ⟨h, rfl⟩

/-- Only the fields the haystack is made of matter. -/
theorem Searchable.of_names (h : Searchable id n) (hip : n'.ip = n.ip)
    (hname : n'.hostname = n.hostname) (hips : n'.ips = n.ips) (hmacs : n'.macs = n.macs)
    (hc : n'.searchCorpus = n.searchCorpus) : Searchable id n' where
  keyed := hip.trans h.keyed
  corpus := by
    rw [hc, h.corpus]
    unfold rebuildSearchCorpusLocked
    rw [hip, hname, hips, hmacs]

theorem allSearchable_empty : AllSearchable ∅ := by
  intro id n h
  rw [AList.lookup_empty] at h
  cases h

theorem AllSearchable.insert (h : AllSearchable nodes) (hn : Searchable id n) :
    AllSearchable (nodes.insert id n) := by
  intro k x hx
  rw [KeyedMap.lookup_insert_eq] at hx
  by_cases hk : k = id
  · rw [if_pos hk, Option.some.injEq] at hx
    rw [hk, ← hx]
    exact hn
  · rw [if_neg hk] at hx
    exact h k x hx

theorem AllSearchable.erase (h : AllSearchable nodes) (id : String) :
    AllSearchable (nodes.erase id) := by
  intro k x hx
  rw [KeyedMap.lookup_erase_eq] at hx
  split at hx
  · cases hx
  · exact h k x hx

theorem AllSearchable.adjust {f : Node → Node} (h : AllSearchable nodes)
    (hf : ∀ n, Searchable id n → Searchable id (f n)) : AllSearchable (nodes.adjust id f) := by
  intro k x hx
  rw [KeyedMap.lookup_adjust] at hx
  by_cases hk : k = id
  · rw [if_pos hk] at hx
    obtain ⟨y, hy, rfl⟩ := Option.map_eq_some_iff.mp hx
    rw [hk] at hy ⊢
    exact hf y (h id y hy)
  · rw [if_neg hk] at hx
    exact h k x hx

/-- A merge rebuilds the node it leaves. -/
theorem AllSearchable.merge {newID oldID : String} (hostname : String) (hne : oldID ≠ newID)
    (h : AllSearchable m.nodes) : AllSearchable (m.mergeNodeInto newID oldID hostname).nodes := by
  intro k x hx
  rw [mergeNodeInto_nodes hne] at hx
  split at hx
  · cases hx
  split at hx
  · rename_i hk
    have hkeyed : x.ip = newID := mergedNode_ip (fun n₁ hn₁ => (h newID n₁ hn₁).keyed) hx
    refine ⟨hkeyed.trans hk.symm, ?_⟩
    generalize m.nodes.lookup newID = a, m.nodes.lookup oldID = b at hx
    rcases a with _ | node <;> rcases b with _ | oldNode
    · cases hx
    all_goals
      cases hx
      rfl
  · exact h k x hx

/-- Naming a re-keyed node rebuilds it. -/
theorem AllSearchable.name (hostname mac : String) (h : AllSearchable nodes) :
    AllSearchable (nodes.adjust id (nameNode id hostname mac)) :=
  h.adjust fun _ _ => searchable_rebuild rfl

/-! ## The steps of the packet path -/

/-- A node that is seen again is rebuilt when an address or a name came with it. -/
theorem Searchable.seeNode {node : Node} (nodeID ip hostname : String) (bytes : Nat) (now : Int)
    (isGroup : Bool) (h : Searchable id node) :
    Searchable id (m.seeNode node nodeID ip hostname bytes now isGroup) := by
  have hgroup : ∀ x : Node, Searchable id x →
      Searchable id (if isGroup then { x with isGroup := true } else x) := by
    intro x hx
    split
    · exact hx.of_names rfl rfl rfl rfl rfl
    · exact hx
  unfold Manager.seeNode
  refine hgroup _ ?_
  cases m.appendsIP nodeID ip with
  | true =>
    simp only [if_true, Bool.true_or]
    refine searchable_rebuild ?_
    split <;> exact h.keyed
  | false =>
    simp only [Bool.false_eq_true, if_false, Bool.false_or]
    split
    · exact searchable_rebuild h.keyed
    · exact h.of_names rfl rfl rfl rfl rfl

theorem AllSearchable.countEndpoint {nodeID ip hostname : String} {bytes : Nat} {now : Int}
    (h : AllSearchable m.nodes) :
    AllSearchable (m.countEndpoint nodeID ip hostname bytes now).nodes := by
  unfold Manager.countEndpoint
  dsimp only
  cases hn : m.nodes.lookup nodeID with
  | none => exact h.insert (searchable_rebuild rfl)
  | some node => exact h.insert ((h nodeID node hn).seeNode ..)

theorem AllSearchable.addOrUpdateNode (ip hostname : String) (bytes : Nat) (now : Int)
    (h : AllSearchable m.nodes) :
    AllSearchable (m.addOrUpdateNodeLocked ip hostname bytes now).nodes := by
  unfold Manager.addOrUpdateNodeLocked
  refine AllSearchable.countEndpoint ?_
  unfold Manager.mergePrevious
  dsimp only
  have hclaim : ∀ name, ({ m with dirty := true }.claimHostname ip name).nodes = m.nodes := by
    intro name
    unfold Manager.claimHostname
    split <;> rfl
  split
  · rename_i hg
    refine AllSearchable.merge _ hg.2 ?_
    rw [hclaim]
    exact h
  · rw [hclaim]
    exact h

theorem AllSearchable.promoteNodeIDToMAC (nodeID mac : String) (h : AllSearchable m.nodes) :
    AllSearchable (m.promoteNodeIDToMAC nodeID mac).nodes := by
  unfold Manager.promoteNodeIDToMAC
  split
  · exact h
  rename_i hg
  simp only [not_or] at hg
  split
  · exact h
  split
  · exact h
  rename_i node _
  split
  · exact h
  split
  · exact h
  have hmerged : AllSearchable ((m.mergeNodeInto mac nodeID (promotedHostname node nodeID)).nodes.adjust
      mac (nameNode mac (promotedHostname node nodeID) mac)) := (h.merge _ hg.2.2.1).name _ mac
  dsimp only
  -- the lookups change last
  split <;> split <;> exact hmerged

theorem AllSearchable.demoteMACIdentity (mac : String) (h : AllSearchable m.nodes) :
    AllSearchable (m.demoteMACIdentity mac).nodes := by
  unfold Manager.demoteMACIdentity
  split
  · exact h
  dsimp only
  split
  · exact h
  · rename_i hg
    simp only [not_or] at hg
    exact (h.merge _ (Ne.symm hg.2)).name _ mac

theorem AllSearchable.noteMAC {nodeID : String} {node : Node} (mac : String)
    (hl : m.nodes.lookup nodeID = some node) (h : AllSearchable m.nodes) :
    AllSearchable (m.noteMAC nodeID mac node).nodes := by
  unfold Manager.noteMAC
  split
  · exact h
  · exact h.insert (searchable_rebuild (h nodeID node hl).keyed)

theorem AllSearchable.recordMAC (nodeID mac : String) (now : Int) (h : AllSearchable m.nodes) :
    AllSearchable (m.recordMACLocked nodeID mac now).nodes := by
  rw [recordMACLocked_eq]
  cases hn : m.nodes.lookup nodeID with
  | none => exact h
  | some node =>
    have hnoted := h.noteMAC mac hn
    have hspec := macCase_spec m nodeID mac now
    dsimp only
    cases hc : m.macCase nodeID mac now with
    | skip => exact h
    | note => exact hnoted
    | anchor => exact AllSearchable.promoteNodeIDToMAC nodeID mac hnoted
    | confirm => exact AllSearchable.promoteNodeIDToMAC nodeID mac hnoted
    | share => exact AllSearchable.demoteMACIdentity mac hnoted
    | readdress a =>
      rw [hc] at hspec
      have hane : a ≠ nodeID := hspec.2.2.2.2.1
      exact AllSearchable.promoteNodeIDToMAC nodeID mac (hnoted.merge node.hostname hane)

theorem AllSearchable.recordEndpointMAC (ip mac : String) (now : Int) (h : AllSearchable m.nodes) :
    AllSearchable (m.recordEndpointMAC ip mac now).nodes := by
  unfold Manager.recordEndpointMAC
  split
  · exact h
  · split
    · exact h
    · exact h.recordMAC _ mac now

/-! ## The other steps -/

theorem AllSearchable.addPeersLocked (aID bID : String) (h : AllSearchable m.nodes) :
    AllSearchable (m.addPeersLocked aID bID).nodes := by
  have hpeer : ∀ (nodes : KeyedMap String Node) (a b : String), AllSearchable nodes →
      AllSearchable (addPeer nodes a b) := fun nodes a b hn =>
    hn.adjust fun x hx => hx.of_names rfl rfl rfl rfl rfl
  unfold Manager.addPeersLocked
  split
  · exact h
  split
  · exact h
  · exact hpeer _ bID aID (hpeer _ aID bID h)

theorem AllSearchable.addOrUpdateEdge (srcIP dstIP : String) (protocol : Protocol) (bytes : Nat)
    (now : Int) (h : AllSearchable m.nodes) :
    AllSearchable (m.addOrUpdateEdgeLocked srcIP dstIP protocol bytes now).nodes := by
  have hcount : ∀ (m : Manager) (edgeID fromID toID : String) (fwd : Bool),
      (m.countOnEdge edgeID fromID toID fwd protocol bytes now).nodes = m.nodes := by
    intro m edgeID fromID toID fwd
    unfold Manager.countOnEdge
    split <;> rfl
  unfold Manager.addOrUpdateEdgeLocked
  dsimp only
  rw [hcount]
  exact AllSearchable.addPeersLocked (m := m.countProtocol protocol) _ _ h

theorem AllSearchable.addPortObservation (srcIP dstIP : String) (dstPort : UInt16)
    (h : AllSearchable m.nodes) :
    AllSearchable (m.addPortObservationLocked srcIP dstIP dstPort).nodes := by
  unfold Manager.addPortObservationLocked
  dsimp only
  refine AllSearchable.adjust (AllSearchable.adjust h ?_) ?_
  · exact fun x hx => hx.of_names rfl rfl rfl rfl rfl
  · intro x hx
    split <;> exact hx.of_names rfl rfl rfl rfl rfl

theorem AllSearchable.stampDeviceInfo (pkt : PacketInfo) (h : AllSearchable m.nodes) :
    AllSearchable (m.stampDeviceInfoLocked pkt).nodes := by
  unfold Manager.stampDeviceInfoLocked
  split
  · exact h
  split
  · exact h
  · exact h.adjust fun x hx => hx.of_names rfl rfl rfl rfl rfl

theorem AllSearchable.overwriteCounters (m : Manager) (rows : List BulkNode)
    (s : KeyedMap String Node × List String) (h : AllSearchable s.1) :
    AllSearchable (rows.foldl m.overwriteCounters s).1 := by
  induction rows generalizing s with
  | nil => exact h
  | cons row rows ih =>
    refine ih _ ?_
    unfold Manager.overwriteCounters
    dsimp only
    split
    · exact h
    · rename_i node hl
      refine h.insert ?_
      have hnode := h _ node hl
      split <;> exact hnode.of_names rfl rfl rfl rfl rfl

theorem AllSearchable.bulkEdge (reg : Registry) (e : BulkEdge) (now : Int)
    (h : AllSearchable m.nodes) : AllSearchable (m.bulkEdge reg e now).nodes := by
  unfold Manager.bulkEdge
  dsimp only
  split
  · exact h
  · have hpeers := h.addPeersLocked
      (getCanonicalEdgeID (m.resolve e.fromID) (m.resolve e.toID)).2.1
      (getCanonicalEdgeID (m.resolve e.fromID) (m.resolve e.toID)).2.2
    split <;> exact hpeers

theorem AllSearchable.bulkLoad (reg : Registry) (rows : List BulkNode) (edges : List BulkEdge)
    (clock : Nat → Int) (h : AllSearchable m.nodes) :
    AllSearchable (m.bulkLoad reg rows edges clock).nodes := by
  have hrows : AllSearchable (m.bulkNodes rows clock).nodes :=
    Run.invariant (P := fun m : Manager => AllSearchable m.nodes) h
      (fun _ r hm _ => hm.addOrUpdateNode r.1.id r.1.hostname 0 (clock r.2))
      (Run.guarded_true _ rows.zipIdx)
  have hedge : ∀ (m : Manager) (r : BulkEdge × Nat), AllSearchable m.nodes → True →
      AllSearchable (m.bulkEdge reg r.1 (clock (rows.length + r.2))).nodes :=
    fun m r hm _ => AllSearchable.bulkEdge reg r.1 _ hm
  exact Run.invariant (P := fun m : Manager => AllSearchable m.nodes)
    (AllSearchable.overwriteCounters _ rows (_, []) hrows) hedge (Run.guarded_true _ edges.zipIdx)

theorem AllSearchable.removeStaleNodes (threshold now : Int) (h : AllSearchable m.nodes) :
    AllSearchable (m.removeStaleNodes threshold now).1.nodes := by
  unfold Manager.removeStaleNodes
  dsimp only
  have hdrop : ∀ (m : Manager) (node : Node), AllSearchable m.nodes → True →
      AllSearchable (m.removeNode node).nodes := fun m node hm _ => hm.erase node.ip
  refine Run.invariant (P := fun m : Manager => AllSearchable m.nodes) ?_ hdrop
    (Run.guarded_true _ _)
  split <;> exact h

theorem AllSearchable.removeStaleEdges (threshold now : Int) (h : AllSearchable m.nodes) :
    AllSearchable (m.removeStaleEdges threshold now).1.nodes := by
  unfold Manager.removeStaleEdges
  dsimp only
  have hdrop : ∀ (m : Manager) (edge : Edge), AllSearchable m.nodes → True →
      AllSearchable (m.removeEdge edge).nodes := fun _ _ hm _ => hm
  refine Run.invariant (P := fun m : Manager => AllSearchable m.nodes) ?_ hdrop
    (Run.guarded_true _ _)
  split <;> exact h

/-- One call on the manager misses no haystack. -/
theorem allSearchable_step (m : Manager) (op : Op) (h : AllSearchable m.nodes) :
    AllSearchable (op.apply m).nodes := by
  cases op with
  | addOrUpdateNode ip hostname bytes now => exact h.addOrUpdateNode ip hostname bytes now
  | addOrUpdateEdge srcIP dstIP protocol bytes now =>
    exact h.addOrUpdateEdge srcIP dstIP protocol bytes now
  | ingest pkt srcHostname dstHostname clock =>
    have h1 := AllSearchable.addOrUpdateNode (m := { m with dirty := true }) pkt.srcIP srcHostname
      pkt.length clock.srcSeen h
    have h2 := h1.addOrUpdateNode pkt.dstIP dstHostname pkt.length clock.dstSeen
    have h3 := h2.recordEndpointMAC pkt.srcIP pkt.srcMAC clock.srcMAC
    have h4 := h3.recordEndpointMAC pkt.dstIP pkt.dstMAC clock.dstMAC
    have h5 := h4.addOrUpdateEdge pkt.srcIP pkt.dstIP pkt.protocol pkt.length clock.edgeSeen
    exact (h5.addPortObservation pkt.srcIP pkt.dstIP pkt.dstPort).stampDeviceInfo pkt
  | bulkLoad reg rows edges clock => exact h.bulkLoad reg rows edges clock
  | removeStaleNodes threshold now => exact h.removeStaleNodes threshold now
  | removeStaleEdges threshold now => exact h.removeStaleEdges threshold now
  | clear => exact allSearchable_empty

/-- **In every state every haystack is the one its fields make.** -/
theorem allSearchable_runOps (ops : List Op) : AllSearchable (runOps ops).nodes :=
  Run.invariant (P := fun m : Manager => AllSearchable m.nodes) allSearchable_empty
    (fun m op hm _ => allSearchable_step m op hm) (Run.guarded_true _ ops)

/-! ## A query of one line -/

/-- The texts a node can be found by. -/
def nodeTexts (id : String) (n : Node) : List String := id :: n.hostname :: (n.ips ++ n.macs)

/-- One of the node's texts contains the query, whatever the case of their letters. -/
def findsNode (query : String) (id : String) (n : Node) : Bool :=
  (nodeTexts id n).any fun text => containsString (toLower text) (toLower query)

theorem toLower_toList (s : String) : (toLower s).toList = s.toList.map RuneCase.toLower :=
  String.toList_ofList

/-- Texts written one after another, each on a line of its own. -/
theorem lines_toList (texts : List String) (s : String) :
    (texts.foldl (fun b text => b ++ "\n" ++ toLower text) s).toList
      = s.toList ++ (texts.map fun text => (toLower text).toList).flatMap (fun l => '\n' :: l) := by
  induction texts generalizing s with
  | nil => simp
  | cons text texts ih =>
    rw [List.foldl_cons, ih, List.map_cons, List.flatMap_cons]
    simp

/-- The texts of the haystack after the id. -/
def laterTexts (n : Node) : List String :=
  (if n.hostname ≠ "" ∧ n.hostname ≠ n.ip then [n.hostname] else []) ++ n.ips ++ n.macs

theorem corpus_toList (n : Node) :
    (rebuildSearchCorpusLocked n).searchCorpus.toList
      = (toLower n.ip).toList
        ++ ((laterTexts n).map fun text => (toLower text).toList).flatMap (fun l => '\n' :: l) := by
  unfold rebuildSearchCorpusLocked laterTexts
  simp only [String.toList_append, lines_toList]
  split <;> simp

/-- A haystack that is up to date contains what one of the node's texts contains. -/
theorem corpus_contains_iff {q : String} (hne : q ≠ "") (hline : '\n' ∉ q.toList) (n : Node) :
    containsString (rebuildSearchCorpusLocked n).searchCorpus q
      = (nodeTexts n.ip n).any fun text => containsString (toLower text) q := by
  have hempty : ¬ q.toList <:+: (toLower "").toList := by
    intro h
    exact hne (String.toList_eq_nil_iff.mp (List.infix_nil.mp h))
  rw [Bool.eq_iff_iff]
  unfold containsString
  rw [decide_eq_true_iff, corpus_toList, Separator.within_joined hline, List.any_eq_true]
  simp only [List.mem_cons, List.mem_map, exists_eq_or_imp, decide_eq_true_iff, nodeTexts,
    laterTexts, List.mem_append, exists_exists_and_eq_and]
  by_cases hname : n.hostname ≠ "" ∧ n.hostname ≠ n.ip
  · rw [if_pos hname]
    simp only [List.mem_singleton, or_assoc, or_and_right, exists_or, exists_eq_left]
  · -- a name that is left out is empty or the id again
    rw [if_neg hname]
    have hold : q.toList <:+: (toLower n.hostname).toList →
        q.toList <:+: (toLower n.ip).toList := by
      intro h
      rcases not_and_or.mp hname with he | he
      · rw [not_not.mp he] at h
        exact absurd h hempty
      · rwa [← not_not.mp he]
    simp only [List.not_mem_nil, false_or]
    rw [← or_assoc, or_iff_left_of_imp hold]

/-- What is looked up is what the fields make, also for a node that has no text at all. -/
theorem haystack_eq (h : Searchable id n) :
    haystack id n = (rebuildSearchCorpusLocked n).searchCorpus := by
  unfold haystack
  split
  · rename_i he
    have hnil : (rebuildSearchCorpusLocked n).searchCorpus.toList = [] := by
      rw [← h.corpus, he]
      rfl
    rw [corpus_toList, List.append_eq_nil_iff] at hnil
    rw [← h.keyed, String.toList_eq_nil_iff.mp hnil.1, ← h.corpus, he]
  · exact h.corpus

/-! ## The scan -/

/-- The busier node first, then the smaller id. -/
def BusierFirst (a b : SearchResult) : Prop :=
  b.packetCount < a.packetCount ∨ a.packetCount = b.packetCount ∧ a.id ≤ b.id

instance : DecidableRel BusierFirst := fun _ _ => inferInstanceAs (Decidable (_ ∨ _))

/-- Every node that has the query in one of its texts, busiest first. -/
def scanNodes (m : Manager) (query : String) : List SearchResult :=
  ((m.nodes.entries.filter fun e => findsNode query e.1 e.2).map
    fun e => searchResult e.1 e.2).insertionSort BusierFirst

omit [RuneCase] in
theorem byBusiest : ByCount busierResult SearchResult.packetCount SearchResult.id where
  iff a b := by
    unfold busierResult
    by_cases hc : a.packetCount = b.packetCount
    · simp [hc]
    · simp [hc]

omit [RuneCase] in
/-- The comparison of the sort and the order of the scan are the same. -/
theorem busierFirst_iff (a b : SearchResult) : BusierFirst a b ↔ busierResult b a = false := by
  rw [byBusiest.not_less]
  unfold BusierFirst
  rw [String.not_lt]
  constructor
  · rintro (h | ⟨h, hid⟩)
    · exact ⟨Nat.le_of_lt h, fun he => absurd he (Nat.ne_of_lt h)⟩
    · exact ⟨Nat.le_of_eq h.symm, fun _ => hid⟩
  · intro ⟨hle, hid⟩
    rcases Nat.lt_or_eq_of_le hle with h | h
    · exact Or.inl h
    · exact Or.inr ⟨h.symm, hid h⟩

omit [RuneCase] in
/-- Results of different nodes have different ids, so any sort puts them in one order. -/
theorem sortSlice_eq_scan (go : Runtime) {es es' : List (Sigma fun _ : String => Node)}
    (hp : es.Perm es') (hnd : (es'.map fun e => e.1).Nodup) :
    go.sortSlice busierResult (es.map fun e => searchResult e.1 e.2)
      = (es'.map fun e => searchResult e.1 e.2).insertionSort BusierFirst := by
  have hperm := (go.sortSlice_perm busierResult (es.map fun e => searchResult e.1 e.2)).trans
    ((hp.map fun e => searchResult e.1 e.2).trans
      (List.perm_insertionSort BusierFirst (es'.map fun e => searchResult e.1 e.2)).symm)
  have htotal : Std.Total BusierFirst := ⟨fun a b => by
    rw [busierFirst_iff, busierFirst_iff]
    exact (byBusiest.preorders.total a b).symm⟩
  have htrans : IsTrans _ BusierFirst := ⟨fun a b c hab hbc => by
    rw [busierFirst_iff] at hab hbc ⊢
    exact byBusiest.preorders.trans a b c hab hbc⟩
  have hscan := List.pairwise_insertionSort BusierFirst (es'.map fun e => searchResult e.1 e.2)
  refine hperm.eq_of_pairwise ?_ (go.sortSlice_sorted byBusiest.preorders _)
    (hscan.imp fun h => (busierFirst_iff _ _).mp h)
  intro a b ha hb hab hba
  rw [Runtime.mem_sortSlice, (hp.map _).mem_iff] at ha
  rw [List.mem_insertionSort] at hb
  obtain ⟨e, he, rfl⟩ := List.mem_map.mp ha
  obtain ⟨f, hf, rfl⟩ := List.mem_map.mp hb
  have hid : e.1 = f.1 := (byBusiest.eq_of_ties hab hba).2.symm
  rw [List.inj_on_of_nodup_map hnd he hf hid]

/--
**The indexed search is the naive scan.** Every haystack is the one the fields of its
node make, and so the first `limit` of the nodes the query is found in come back.
-/
theorem searchNodes_eq_scan (hnl : ∀ c, RuneCase.toLower c = '\n' → c = '\n') (ops : List Op) :
    (∀ id n, (runOps ops).nodes.lookup id = some n →
        n.searchCorpus = (rebuildSearchCorpusLocked n).searchCorpus)
      ∧ ∀ (go : Runtime) (query : String) (limit : Int), trimSpace query ≠ "" →
          '\n' ∉ (trimSpace query).toList → 1 ≤ limit →
          searchNodes go (runOps ops) query limit
            = (scanNodes (runOps ops) (trimSpace query)).take limit.toNat := by
  have hall := allSearchable_runOps ops
  refine ⟨fun id n hl => (hall id n hl).corpus, fun go query limit hq hline hlimit => ?_⟩
  have hne : toLower (trimSpace query) ≠ "" := by
    intro h
    have hnil := congrArg String.toList h
    rw [toLower_toList, String.toList_empty, List.map_eq_nil_iff] at hnil
    exact hq (String.toList_eq_nil_iff.mp hnil)
  have hlower : '\n' ∉ (toLower (trimSpace query)).toList := by
    rw [toLower_toList]
    intro h
    obtain ⟨c, hc, he⟩ := List.mem_map.mp h
    exact hline (hnl c he ▸ hc)
  have hfinds : ∀ e ∈ (runOps ops).nodes.entries,
      containsString (haystack e.1 e.2) (toLower (trimSpace query))
        = findsNode (trimSpace query) e.1 e.2 := by
    intro e he
    have hnode := hall e.1 e.2 ((KeyedMap.mem_entries_iff _ _ _).mp he)
    rw [haystack_eq hnode, corpus_contains_iff hne hlower, hnode.keyed]
    rfl
  unfold searchNodes scanNodes
  dsimp only
  rw [if_neg hne, if_neg (by omega)]
  congr 1
  refine sortSlice_eq_scan go ?_ ?_
  · rw [← List.filter_congr hfinds]
    exact (go.rangeOf_perm _).filter _
  · exact (AList.keys_nodup (runOps ops).nodes).sublist (List.filter_sublist.map _)

end Texts

/-- No letter's lower case is a newline. -/
theorem lower_ne_newline (c : Char) (h : RuneCase.toLower c = '\n') : c = '\n' := by
  have hlow : c.toLower = '\n' := h
  unfold Char.toLower at hlow
  split at hlow
  · rename_i hc
    have hsum := congrArg (fun d : Char => d.val.toNat) hlow
    rw [ge_iff_le, UInt32.le_iff_toNat_le, UInt32.le_iff_toNat_le] at hc
    simp only [UInt32.toNat_add] at hsum
    have hA : 'A'.val.toNat = 65 := rfl
    have hZ : 'Z'.val.toNat = 90 := rfl
    have hd : ('a'.val - 'A'.val).toNat = 32 := rfl
    have hnl : '\n'.val.toNat = 10 := rfl
    omega
  · exact hlow

/-- A host is found by the name a later packet gave it, in any spelling. -/
theorem searchNodes_eq_scan_printer :
    searchNodes .stable
        (runOps [.addOrUpdateNode "10.0.0.7" "" 60 0, .addOrUpdateNode "10.0.0.9" "" 60 0,
          .addOrUpdateNode "10.0.0.7" "Printer-3" 60 1]) " PRINTER " 5
      = (scanNodes (runOps [.addOrUpdateNode "10.0.0.7" "" 60 0,
          .addOrUpdateNode "10.0.0.9" "" 60 0,
          .addOrUpdateNode "10.0.0.7" "Printer-3" 60 1]) (trimSpace " PRINTER ")).take 5 :=
  (searchNodes_eq_scan lower_ne_newline _).2 .stable " PRINTER " 5 (by decide) (by decide)
    (by decide)

end Etherchimp
