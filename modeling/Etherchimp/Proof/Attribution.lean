import Etherchimp.Proof.Identity

/-!
# Who owns an address

`ipToNodeID` says which node an address resolves to, `Node.ips` says which
addresses a node has. `IPAttribution` is that the two agree. Merges, promotions,
demotions and decay keep the agreement; the one step that can break it is
counting an endpoint, and `addOrUpdateNode_attribution_iff` says exactly when: the
lookup is written before the list is checked against it, so a new address never
joins a node that is already there, and the empty id is taken for "no node yet".
-/

namespace Etherchimp

/-- Nodes are stored under their id, and addresses resolve to the node that lists them. -/
structure IPAttribution (m : Manager) : Prop where
  keyed : ∀ k n, m.nodes.lookup k = some n → n.ip = k
  attributed : ∀ ip k, m.ipToNodeID.lookup ip = some k ↔
    ∃ n, m.nodes.lookup k = some n ∧ ip ∈ n.ips

theorem ipAttribution_init : IPAttribution newManager where
  keyed := by intro k n h; simp [newManager] at h
  attributed := by intro ip k; simp [newManager]

/-- An address is on one node at most. -/
theorem IPAttribution.unique {m : Manager} (h : IPAttribution m) {ip k k' : String} {n n' : Node}
    (hk : m.nodes.lookup k = some n) (hn : ip ∈ n.ips)
    (hk' : m.nodes.lookup k' = some n') (hn' : ip ∈ n'.ips) : k = k' := by
  have h1 := (h.attributed ip k).mpr ⟨n, hk, hn⟩
  have h2 := (h.attributed ip k').mpr ⟨n', hk', hn'⟩
  rw [h1] at h2
  exact Option.some.inj h2

/-- Only ids and address lists matter. -/
theorem IPAttribution.of_ips {m m' : Manager} (hi : m'.ipToNodeID = m.ipToNodeID)
    (hips : ∀ k, (m'.nodes.lookup k).map Node.ips = (m.nodes.lookup k).map Node.ips)
    (hkeyed : ∀ k n, m'.nodes.lookup k = some n → n.ip = k) (h : IPAttribution m) :
    IPAttribution m' where
  keyed := hkeyed
  attributed := by
    have hex : ∀ (m : Manager) (ip k : String), (∃ n, m.nodes.lookup k = some n ∧ ip ∈ n.ips)
        ↔ ∃ l, (m.nodes.lookup k).map Node.ips = some l ∧ ip ∈ l := by
      intro m ip k
      cases m.nodes.lookup k <;> simp
    intro ip k
    rw [hi, h.attributed, hex, hex, hips]

theorem IPAttribution.kept {m m' : Manager} (hk : NodesKept m m') (h : IPAttribution m) :
    IPAttribution m' := by
  refine h.of_ips hk.ipTo (fun k => ?_) (fun k n' hl => ?_)
  · have hr := hk.nodes k
    generalize m.nodes.lookup k = x, m'.nodes.lookup k = y at hr
    cases hr with
    | none => rfl
    | some hr => exact congrArg some hr.ips
  · obtain ⟨n, hm, hr⟩ := hk.lookup hl
    rcases hr.ip with he | he
    · rw [he]; exact h.keyed k n hm
    · exact he

/-! ## Decay -/

/-- The stale values are distinct and each sits under its own id. -/
theorem staleValues_spec {α : Type} {id : α → String} (lastSeen : α → Int) (cap : Nat)
    (threshold now : Int) {entries : KeyedMap String α}
    (hid : ∀ k v, entries.lookup k = some v → id v = k) :
    ((staleValues id lastSeen cap threshold now entries).map id).Nodup
      ∧ ∀ v ∈ staleValues id lastSeen cap threshold now entries,
          entries.lookup (id v) = some v := by
  have hkeys : (entries.entries.map fun e => e.2).map id = entries.keys := by
    rw [List.map_map]
    refine List.map_congr_left fun e he => ?_
    exact hid e.1 e.2 ((KeyedMap.mem_entries_iff entries e.1 e.2).mp he)
  constructor
  · have hnd : (((entries.entries.map fun e => e.2).filter
        fun v => threshold < now - lastSeen v).map id).Nodup := by
      refine List.Nodup.sublist (List.Sublist.map id List.filter_sublist) ?_
      rw [hkeys]
      exact AList.keys_nodup entries
    refine List.Nodup.sublist (List.Sublist.map id (List.take_sublist _ _)) ?_
    exact ((List.perm_insertionSort _ _).map id).nodup_iff.mpr hnd
  · intro v hv
    have hv := List.mem_of_mem_take hv
    rw [List.mem_insertionSort, List.mem_filter, List.mem_map] at hv
    obtain ⟨⟨e, he, rfl⟩, -⟩ := hv
    have hl := (KeyedMap.mem_entries_iff entries e.1 e.2).mp he
    rw [hid _ _ hl]
    exact hl

theorem IPAttribution.removeNode {m : Manager} {node : Node} (h : IPAttribution m)
    (hl : m.nodes.lookup node.ip = some node) : IPAttribution (m.removeNode node) where
  keyed := by
    intro k n hk
    rw [show (m.removeNode node).nodes = m.nodes.erase node.ip from rfl,
      KeyedMap.lookup_erase_eq] at hk
    split at hk
    · cases hk
    · exact h.keyed k n hk
  attributed := by
    intro ip k
    show (m.ipToNodeID.eraseAll node.ips).lookup ip = some k
      ↔ ∃ n, (m.nodes.erase node.ip).lookup k = some n ∧ ip ∈ n.ips
    rw [KeyedMap.lookup_eraseAll, KeyedMap.lookup_erase_eq]
    by_cases hip : ip ∈ node.ips
    · -- only the removed node had the address
      rw [if_pos hip]
      constructor
      · intro hk; cases hk
      · rintro ⟨n, hn, hmem⟩
        split at hn
        · cases hn
        · rename_i hk
          exact absurd (h.unique hn hmem hl hip) hk
    · rw [if_neg hip, h.attributed]
      by_cases hk : k = node.ip
      · subst hk
        rw [if_pos rfl, hl]
        simp [hip]
      · rw [if_neg hk]

/-- What dropping one node keeps, the sweep keeps: each stale node is still there when its turn comes. -/
theorem removeStaleNodes_rule {P : Manager → Prop} {m : Manager} (threshold now : Int)
    (hdirty : ∀ m, P m → P { m with dirty := true })
    (hstep : ∀ m node, P m → m.nodes.lookup node.ip = some node → P (m.removeNode node))
    (hkeyed : ∀ k n, m.nodes.lookup k = some n → n.ip = k) (h : P m) :
    P (m.removeStaleNodes threshold now).1 := by
  obtain ⟨hnd, hfound⟩ := staleValues_spec Node.lastSeen maxNodeRemovalsPerSweep threshold now hkeyed
  unfold Manager.removeStaleNodes
  generalize staleValues Node.ip Node.lastSeen maxNodeRemovalsPerSweep threshold now m.nodes
    = stale at hnd hfound
  dsimp only
  have hm : ∀ m' : Manager, P m' → (∀ v ∈ stale, m'.nodes.lookup v.ip = some v) →
      P (stale.foldl Manager.removeNode m') := by
    induction stale with
    | nil => intro m' hm' _; exact hm'
    | cons n stale ih =>
      intro m' hm' hf
      rw [List.map_cons, List.nodup_cons] at hnd
      refine ih hnd.2 (fun v hv => hfound v (List.mem_cons_of_mem _ hv)) (m'.removeNode n)
        (hstep m' n hm' (hf n (List.mem_cons_self ..))) ?_
      intro v hv
      have hne : v.ip ≠ n.ip := fun he => hnd.1 (he ▸ List.mem_map_of_mem hv)
      show (m'.nodes.erase n.ip).lookup v.ip = some v
      rw [AList.lookup_erase_ne hne]
      exact hf v (List.mem_cons_of_mem _ hv)
  split
  · exact hm _ (hdirty m h) hfound
  · exact hm m h hfound

theorem IPAttribution.removeStaleNodes {m : Manager} {threshold now : Int}
    (h : IPAttribution m) : IPAttribution (m.removeStaleNodes threshold now).1 :=
  removeStaleNodes_rule threshold now
    (fun m hm => hm.kept (m := m) (NodesKept.of_nodes_eq rfl rfl))
    (fun _ _ hm hl => hm.removeNode hl) h.keyed h

theorem IPAttribution.removeStaleEdges {m : Manager} {threshold now : Int}
    (h : IPAttribution m) : IPAttribution (m.removeStaleEdges threshold now).1 := by
  have hm : ∀ (l : List Edge) (m' : Manager), IPAttribution m' →
      IPAttribution (l.foldl Manager.removeEdge m') := by
    intro l
    induction l with
    | nil => intro m' hm'; exact hm'
    | cons e l ih => intro m' hm'; exact ih _ (hm'.kept (m := m') (NodesKept.of_nodes_eq rfl rfl))
  unfold Manager.removeStaleEdges
  dsimp only
  split
  · exact hm _ _ (h.kept (m := m) (NodesKept.of_nodes_eq rfl rfl))
  · exact hm _ _ h

/-! ## Merging -/

section

variable [RuneCase]

theorem IPAttribution.merge {m : Manager} {newID oldID hostname : String} (hne : oldID ≠ newID)
    (h : IPAttribution m) : IPAttribution (m.mergeNodeInto newID oldID hostname) where
  keyed := by
    intro k n hl
    rw [Manager.mergeNodeInto_nodes hne] at hl
    split at hl
    · cases hl
    · split at hl
      · rename_i hk
        subst hk
        exact mergedNode_ip (fun n₁ hn₁ => h.keyed _ _ hn₁) hl
      · exact h.keyed k n hl
  attributed := by
    intro ip k
    rw [Manager.mergeNodeInto_ipToNodeID, Manager.mergeNodeInto_nodes hne]
    constructor
    · intro hl
      obtain ⟨k₀, hk₀, hrep⟩ := Option.map_eq_some_iff.mp hl
      obtain ⟨n₀, hn₀, hip⟩ := (h.attributed ip k₀).mp hk₀
      have hko : k ≠ oldID := by
        rw [← hrep]; unfold repoint; split
        · exact hne.symm
        · assumption
      rw [if_neg hko]
      by_cases hkn : k = newID
      · -- the address came with the old node, or was on the new one already
        rw [if_pos hkn]
        have hsome : ∃ n, mergedNode newID hostname (m.nodes.lookup newID) (m.nodes.lookup oldID)
            = some n := by
          rw [← Option.ne_none_iff_exists']
          intro hnone
          obtain ⟨h1, h2⟩ := mergedNode_eq_none.mp hnone
          unfold repoint at hrep
          split at hrep
          · rename_i ho; rw [ho, h2] at hn₀; cases hn₀
          · rw [hrep, hkn, h1] at hn₀; cases hn₀
        obtain ⟨n, hn⟩ := hsome
        refine ⟨n, hn, (mem_mergedNode_ips hn ip).mpr ?_⟩
        unfold repoint at hrep
        split at hrep
        · rename_i ho; exact Or.inr ⟨n₀, ho ▸ hn₀, hip⟩
        · exact Or.inl ⟨n₀, by rw [← hkn, ← hrep]; exact hn₀, hip⟩
      · rw [if_neg hkn]
        unfold repoint at hrep
        split at hrep
        · exact absurd hrep.symm hkn
        · exact ⟨n₀, hrep ▸ hn₀, hip⟩
    · rintro ⟨n, hl, hip⟩
      split at hl
      · cases hl
      · rename_i hko
        split at hl
        · rename_i hkn
          rw [hkn]
          rcases (mem_mergedNode_ips hl ip).mp hip with ⟨n₁, hx, h1⟩ | ⟨n₂, hy, h2⟩
          · rw [(h.attributed ip newID).mpr ⟨n₁, hx, h1⟩]
            simp [repoint, hne.symm]
          · rw [(h.attributed ip oldID).mpr ⟨n₂, hy, h2⟩]
            simp [repoint]
        · rw [(h.attributed ip k).mpr ⟨n, hl, hip⟩]
          simp [repoint, hko]

/-- Attribution survives the whole MAC path. -/
theorem ipAttribution_closed :
    Manager.Closed (fun _ => True) (fun _ _ _ => True) IPAttribution where
  kept hk h := h.kept hk.toNodesKept
  admissible _ _ := ⟨trivial, fun _ _ => trivial⟩
  resolves _ h hl _ := by
    obtain ⟨n, hn, _⟩ := (h.attributed _ _).mp hl
    exact ⟨n, hn⟩
  merge hne _ _ _ h := h.merge hne

/-! ## Counting an endpoint -/

namespace Manager

variable {m : Manager} {ip hostname nodeID : String} {bytes : Nat} {now : Int}

/-- Counting keeps the agreement exactly when the address is there already, or the node is new. -/
theorem countEndpoint_attribution_iff (h : IPAttribution m) :
    IPAttribution (m.countEndpoint nodeID ip hostname bytes now) ↔
      m.ipToNodeID.lookup ip = some nodeID
        ∨ (m.ipToNodeID.lookup ip = none ∧ m.nodes.lookup nodeID = none) := by
  obtain ⟨node, hnodes, hnode⟩ := countEndpoint_nodes m nodeID ip hostname bytes now
  constructor
  · intro h'
    cases hip : m.ipToNodeID.lookup ip with
    | none =>
      refine Or.inr ⟨rfl, ?_⟩
      cases hn : m.nodes.lookup nodeID with
      | none => rfl
      | some n =>
        -- the node was there, so the address did not join its list
        exfalso
        rw [hn] at hnode
        obtain ⟨n', hl, hmem⟩ := (h'.attributed ip nodeID).mp (by
          rw [countEndpoint_ipToNodeID]; exact AList.lookup_insert _)
        rw [hnodes, AList.lookup_insert, Option.some.injEq] at hl
        rw [← hl, hnode.2.1] at hmem
        rw [(h.attributed ip nodeID).mpr ⟨n, hn, hmem⟩] at hip
        cases hip
    | some k =>
      left
      by_contra hk
      have hk' : k ≠ nodeID := fun he => hk (by rw [he])
      obtain ⟨n, hn, hmem⟩ := (h.attributed ip k).mp hip
      have := (h'.attributed ip k).mpr ⟨n, by
        rw [hnodes, KeyedMap.lookup_insert_eq, if_neg hk']; exact hn, hmem⟩
      rw [countEndpoint_ipToNodeID, AList.lookup_insert, Option.some.injEq] at this
      exact hk' this.symm
  · intro hok
    have hkeyed : node.ip = nodeID := by
      cases hn : m.nodes.lookup nodeID with
      | none => rw [hn] at hnode; exact hnode.1
      | some n => rw [hn] at hnode; rw [hnode.1]; exact h.keyed _ _ hn
    refine ⟨?_, ?_⟩
    · intro k n hl
      rw [hnodes, KeyedMap.lookup_insert_eq] at hl
      split at hl
      · rename_i hk; cases hl; rw [hk]; exact hkeyed
      · exact h.keyed k n hl
    · intro a k
      rw [countEndpoint_ipToNodeID, hnodes, KeyedMap.lookup_insert_eq, KeyedMap.lookup_insert_eq]
      rcases hok with hip | ⟨hip, hnone⟩
      · -- the address was on this node before
        obtain ⟨n, hn, hmem⟩ := (h.attributed ip nodeID).mp hip
        rw [hn] at hnode
        have hsame : (if a = ip then some nodeID else m.ipToNodeID.lookup a)
            = m.ipToNodeID.lookup a := by
          split
          · rename_i ha; rw [ha, hip]
          · rfl
        rw [hsame, h.attributed]
        split
        · rename_i hk
          subst hk
          simp [hn, hnode.2.1]
        · rfl
      · -- a new node with this one address
        rw [hnone] at hnode
        by_cases hk : k = nodeID
        · subst hk
          rw [if_pos rfl]
          by_cases ha : a = ip
          · subst ha; simp [hnode.2.1]
          · rw [if_neg ha]
            have : ¬ m.ipToNodeID.lookup a = some k := by
              intro hl
              obtain ⟨n, hn, _⟩ := (h.attributed a k).mp hl
              rw [hnone] at hn; cases hn
            simp [this, hnode.2.1, ha]
        · rw [if_neg hk]
          by_cases ha : a = ip
          · subst ha
            rw [if_pos rfl]
            have : ¬ ∃ n, m.nodes.lookup k = some n ∧ a ∈ n.ips := by
              intro hex
              have := (h.attributed a k).mpr hex
              rw [hip] at this; cases this
            simp [this, Ne.symm hk]
          · rw [if_neg ha]; exact h.attributed a k

/-- The address opens a new node, or is on some node already. -/
def AttributesEndpoint (m : Manager) (ip hostname : String) : Prop :=
  let nodeID := m.nodeIDFor ip (nodeHostname ip hostname)
  match m.ipToNodeID.lookup ip with
  | none => m.nodes.lookup nodeID = none
  | some k => k = "" → nodeID = ""

instance (m : Manager) (ip hostname : String) : Decidable (m.AttributesEndpoint ip hostname) := by
  unfold AttributesEndpoint
  cases m.ipToNodeID.lookup ip <;> infer_instance

theorem mergePrevious_attribution (h : IPAttribution m) :
    IPAttribution (m.mergePrevious ip hostname nodeID) :=
  mergePrevious_preserves ipAttribution_closed trivial (fun _ _ => trivial) h

/-- **Exactly when adding or updating a node keeps the attribution.** -/
theorem addOrUpdateNode_attribution_iff (h : IPAttribution m) :
    IPAttribution (m.addOrUpdateNodeLocked ip hostname bytes now)
      ↔ m.AttributesEndpoint ip hostname := by
  unfold addOrUpdateNodeLocked AttributesEndpoint
  dsimp only
  generalize nodeHostname ip hostname = host
  generalize m.nodeIDFor ip host = nodeID
  rw [countEndpoint_attribution_iff (mergePrevious_attribution h), mergePrevious_ipToNodeID]
  cases hip : m.ipToNodeID.lookup ip with
  | none =>
    have hnodes : (m.mergePrevious ip host nodeID).nodes.lookup nodeID = none
        ↔ m.nodes.lookup nodeID = none := by
      unfold mergePrevious
      simp only [hip, Option.getD_none, ne_eq, not_true_eq_false, false_and, if_false]
      exact (claimHostname_kept m ip host).lookup_none
    simp [hnodes]
  | some k =>
    by_cases hk : k = ""
    · subst hk
      simp [eq_comm]
    · simp [hk, repoint]

end Manager

/-! ## Reload -/

omit [RuneCase] in
/-- Overwriting counters touches no id and no address list. -/
theorem overwriteCounters_nodes (m : Manager) (s : KeyedMap String Node × List String)
    (n : BulkNode) (k : String) :
    ((m.overwriteCounters s n).1.lookup k).map (fun x => (x.ip, x.ips))
      = (s.1.lookup k).map (fun x => (x.ip, x.ips)) := by
  unfold Manager.overwriteCounters
  dsimp only
  cases hl : s.1.lookup (m.resolve n.id) with
  | none => rfl
  | some node =>
    rw [KeyedMap.lookup_insert_eq]
    split
    · rename_i hk
      rw [hk, hl]
      split <;> rfl
    · rfl

omit [RuneCase] in
theorem overwriteAll_nodes (m : Manager) (rows : List BulkNode)
    (s : KeyedMap String Node × List String) (k : String) :
    ((rows.foldl m.overwriteCounters s).1.lookup k).map (fun x => (x.ip, x.ips))
      = (s.1.lookup k).map (fun x => (x.ip, x.ips)) := by
  induction rows generalizing s with
  | nil => rfl
  | cons n rows ih => exact (ih (m.overwriteCounters s n)).trans (overwriteCounters_nodes m s n k)

omit [RuneCase] in
theorem IPAttribution.overwriteCounters {m : Manager} (rows : List BulkNode)
    (h : IPAttribution m) :
    IPAttribution { m with nodes := (rows.foldl m.overwriteCounters (m.nodes, [])).1 } := by
  refine h.of_ips (m := m) rfl (fun k => ?_) (fun k n hl => ?_)
  · have := congrArg (Option.map Prod.snd) (overwriteAll_nodes m rows (m.nodes, []) k)
    simpa only [Option.map_map, Function.comp_def] using this
  · have := overwriteAll_nodes m rows (m.nodes, []) k
    rw [hl] at this
    obtain ⟨n₀, hn₀, he⟩ := Option.map_eq_some_iff.mp this.symm
    rw [← (Prod.mk.inj he).1]
    exact h.keyed k n₀ hn₀

omit [RuneCase] in
theorem bulkEdge_nodesKept (reg : Registry) (m : Manager) (e : BulkEdge) (now : Int) :
    NodesKept m (m.bulkEdge reg e now) := by
  unfold Manager.bulkEdge
  dsimp only
  split
  · exact NodesKept.of_nodes_eq rfl rfl
  · generalize getCanonicalEdgeID (m.resolve e.fromID) (m.resolve e.toID) = c
    refine (Manager.addPeersLocked_nodesKept m c.2.1 c.2.2).trans (NodesKept.of_nodes_eq ?_ ?_)
    · split <;> rfl
    · split <;> rfl

/-! ## Runs -/

/-- Every endpoint the call counts meets `AttributesEndpoint` in the state it is counted in. -/
def Op.Attributes (m : Manager) : Op → Prop
  | .addOrUpdateNode ip hostname _ _ => m.AttributesEndpoint ip hostname
  | .addOrUpdateEdge .. => True
  | .ingest pkt srcHostname dstHostname clock =>
      m.AttributesEndpoint pkt.srcIP srcHostname
        ∧ (m.addOrUpdateNodeLocked pkt.srcIP srcHostname pkt.length
            clock.srcSeen).AttributesEndpoint pkt.dstIP dstHostname
  | .bulkLoad _ nodes _ clock =>
      Run.Guarded (fun m r => m.addOrUpdateNodeLocked r.1.id r.1.hostname 0 (clock r.2))
        (fun m r => m.AttributesEndpoint r.1.id r.1.hostname) m nodes.zipIdx
  | .removeStaleNodes .. => True
  | .removeStaleEdges .. => True
  | .clear => True

instance (m : Manager) : (op : Op) → Decidable (op.Attributes m)
  | .addOrUpdateNode .. => inferInstanceAs (Decidable (Manager.AttributesEndpoint ..))
  | .addOrUpdateEdge .. => inferInstanceAs (Decidable True)
  | .ingest .. => inferInstanceAs (Decidable (Manager.AttributesEndpoint .. ∧ _))
  | .bulkLoad .. => inferInstanceAs (Decidable (Run.Guarded ..))
  | .removeStaleNodes .. => inferInstanceAs (Decidable True)
  | .removeStaleEdges .. => inferInstanceAs (Decidable True)
  | .clear => inferInstanceAs (Decidable True)

theorem IPAttribution.addOrUpdateNode {m : Manager} {ip hostname : String} (bytes : Nat)
    (now : Int) (h : IPAttribution m) (hok : m.AttributesEndpoint ip hostname) :
    IPAttribution (m.addOrUpdateNodeLocked ip hostname bytes now) :=
  (Manager.addOrUpdateNode_attribution_iff h).mpr hok

theorem IPAttribution.recordEndpointMAC {m : Manager} (ip mac : String) (now : Int)
    (h : IPAttribution m) : IPAttribution (m.recordEndpointMAC ip mac now) :=
  Manager.recordEndpointMAC_preserves ipAttribution_closed (fun _ => trivial)
    (Manager.endpointMerges_of_forall (fun _ _ _ => trivial) m ip mac now) h

theorem IPAttribution.ingest {m : Manager} {pkt : PacketInfo} {srcHostname dstHostname : String}
    {clock : Manager.IngestClock} (h : IPAttribution m)
    (hsrc : m.AttributesEndpoint pkt.srcIP srcHostname)
    (hdst : (m.addOrUpdateNodeLocked pkt.srcIP srcHostname pkt.length
      clock.srcSeen).AttributesEndpoint pkt.dstIP dstHostname) :
    IPAttribution (m.ingest pkt srcHostname dstHostname clock) := by
  have h0 : IPAttribution { m with dirty := true } := h.kept (m := m) (NodesKept.of_nodes_eq rfl rfl)
  have h1 := h0.addOrUpdateNode pkt.length clock.srcSeen hsrc
  have h2 := h1.addOrUpdateNode pkt.length clock.dstSeen hdst
  have h3 := h2.recordEndpointMAC pkt.srcIP pkt.srcMAC clock.srcMAC
  have h4 := h3.recordEndpointMAC pkt.dstIP pkt.dstMAC clock.dstMAC
  have h5 := h4.kept (Manager.addOrUpdateEdgeLocked_nodesKept _ pkt.srcIP pkt.dstIP pkt.protocol
    pkt.length clock.edgeSeen)
  have h6 := h5.kept (Manager.addPortObservationLocked_kept _ pkt.srcIP pkt.dstIP
    pkt.dstPort).toNodesKept
  have h7 := h6.kept (Manager.stampDeviceInfoLocked_kept _ pkt).toNodesKept
  unfold Manager.ingest
  dsimp only
  exact h7

theorem IPAttribution.bulkLoad {m : Manager} (reg : Registry) {nodes : List BulkNode}
    (edges : List BulkEdge) {clock : Nat → Int} (h : IPAttribution m)
    (hok : Run.Guarded (fun m r => m.addOrUpdateNodeLocked r.1.id r.1.hostname 0 (clock r.2))
      (fun m r => m.AttributesEndpoint r.1.id r.1.hostname) m nodes.zipIdx) :
    IPAttribution (m.bulkLoad reg nodes edges clock) := by
  have h1 : IPAttribution (m.bulkNodes nodes clock) :=
    Run.invariant h (fun _ r hm hr => hm.addOrUpdateNode 0 (clock r.2) hr) hok
  have h2 : IPAttribution { m.bulkNodes nodes clock with dirty := true } :=
    h1.kept (m := m.bulkNodes nodes clock) (NodesKept.of_nodes_eq rfl rfl)
  have hrow : ∀ (m : Manager) (r : BulkEdge × Nat), IPAttribution m → True →
      IPAttribution (m.bulkEdge reg r.1 (clock (nodes.length + r.2))) :=
    fun m r hm _ => hm.kept (bulkEdge_nodesKept reg m r.1 _)
  exact Run.invariant (h2.overwriteCounters nodes) hrow (Run.guarded_true _ edges.zipIdx)

/-- One call keeps the attribution when its endpoints do. -/
theorem ipAttribution_step (m : Manager) (op : Op) (h : IPAttribution m)
    (hok : op.Attributes m) : IPAttribution (op.apply m) := by
  cases op with
  | addOrUpdateNode ip hostname bytes now => exact h.addOrUpdateNode bytes now hok
  | addOrUpdateEdge srcIP dstIP protocol bytes now =>
    exact h.kept (Manager.addOrUpdateEdgeLocked_nodesKept m srcIP dstIP protocol bytes now)
  | ingest pkt srcHostname dstHostname clock =>
    obtain ⟨hsrc, hdst⟩ := hok
    show IPAttribution (m.ingest pkt srcHostname dstHostname clock)
    exact h.ingest hsrc hdst
  | bulkLoad reg nodes edges clock => exact h.bulkLoad reg edges hok
  | removeStaleNodes threshold now => exact h.removeStaleNodes
  | removeStaleEdges threshold now => exact h.removeStaleEdges
  | clear =>
    refine ⟨?_, ?_⟩
    · intro k n hl; simp [Op.apply, Manager.clear] at hl
    · intro ip k; simp [Op.apply, Manager.clear]

/--
**Addresses and nodes agree in every run whose counted endpoints meet the condition.**
Each one's address must be on a node already, or open a new node.
-/
theorem ipAttribution_run (ops : List Op) (h : Run.Guarded Op.apply Op.Attributes newManager ops) :
    IPAttribution (runOps ops) :=
  Run.invariant ipAttribution_init ipAttribution_step h

end

/-- A DHCP host that moves to a new address once its old one went quiet. -/
def readdressRun : List Op :=
  let mac := "aa:bb:cc:00:11:22"
  let window : Int := 200 * 1000000000
  [.ingest { srcIP := "10.0.0.5", dstIP := "8.8.8.8", srcMAC := mac, length := 10 } "" "" {},
   .ingest { srcIP := "10.0.0.9", dstIP := "8.8.8.8", srcMAC := mac, length := 10 } "" ""
     ⟨window, window, window, window, window⟩]

theorem ipAttribution_run_readdress :
    Run.Guarded Op.apply Op.Attributes newManager readdressRun
      ∧ (runOps readdressRun).ipToNodeID.lookup "10.0.0.9" = some "aa:bb:cc:00:11:22"
      ∧ IPAttribution (runOps readdressRun) :=
  ⟨by decide, by decide, ipAttribution_run readdressRun (by decide)⟩

/-- Two addresses that resolve to one hostname. -/
def sharedHostnameRun : List Op :=
  [.addOrUpdateNode "10.0.0.5" "web.lan" 60 0, .addOrUpdateNode "10.0.0.6" "web.lan" 60 0]

/-- The second address resolves to the node but never gets on its list. -/
theorem ipAttribution_sharedHostname : ¬ ∀ ops : List Op, IPAttribution (runOps ops) := by
  intro h
  have hresolves : (runOps sharedHostnameRun).ipToNodeID.lookup "10.0.0.6" = some "web.lan" := by
    decide
  have hips : ((runOps sharedHostnameRun).nodes.lookup "web.lan").map Node.ips
      = some ["10.0.0.5"] := by
    decide
  obtain ⟨n, hn, hmem⟩ := ((h sharedHostnameRun).attributed "10.0.0.6" "web.lan").mp hresolves
  rw [hn, Option.map_some, Option.some.injEq] at hips
  rw [hips] at hmem
  revert hmem
  decide

end Etherchimp
