import Etherchimp.Proof.NodeIDs

/-!
# Every id leads to a node

When a manager is driven by `Ingest` alone, every address resolves to a node and
every edge joins two nodes. The one assumption is that no endpoint id and no name
contains the edge separator; the ids may be empty.

A merge of an id that is no node changes nothing of this: no address and no edge
can be at that id.
-/

namespace Etherchimp

open Manager

/-- The ids are unambiguous, and what refers to a node refers to one that exists. -/
structure Linked (m : Manager) : Prop where
  wellKeyed : WellKeyed m.edges
  ids : ∀ k n, m.nodes.lookup k = some n → SepFree k ∧ ∀ ip ∈ n.ips, SepFree ip
  names : ∀ h id, m.hostnameToNodeID.lookup h = some id → SepFree id
  resolves : ∀ ip k, m.ipToNodeID.lookup ip = some k → ∃ n, m.nodes.lookup k = some n
  ends : ∀ k e, m.edges.lookup k = some e →
    (∃ n, m.nodes.lookup e.fromID = some n) ∧ ∃ n, m.nodes.lookup e.toID = some n

/-- The ids and names of the call contain no separator. -/
structure IngestCall.Unambiguous (c : IngestCall) : Prop where
  srcIP : SepFree c.pkt.srcIP
  dstIP : SepFree c.pkt.dstIP
  srcHostname : SepFree c.srcHostname
  dstHostname : SepFree c.dstHostname

variable {m m' : Manager} {newID oldID hostname : String}

theorem linked_init : Linked newManager where
  wellKeyed := nofun
  ids := nofun
  names := nofun
  resolves := nofun
  ends := nofun

theorem Linked.nodesKept (hk : NodesKept m m') (he : m'.edges = m.edges)
    (hnames : ∀ h id, m'.hostnameToNodeID.lookup h = some id → SepFree id) (h : Linked m) :
    Linked m' where
  wellKeyed := by rw [he]; exact h.wellKeyed
  ids k n' hl := by
    obtain ⟨n, hn, hr⟩ := hk.lookup hl
    rw [hr.ips]
    exact h.ids k n hn
  names := hnames
  resolves ip k hl := by
    rw [hk.ipTo] at hl
    obtain ⟨n, hn⟩ := h.resolves ip k hl
    obtain ⟨n', hn', -⟩ := hk.lookup' hn
    exact ⟨n', hn'⟩
  ends k e hl := by
    rw [he] at hl
    obtain ⟨⟨n, hn⟩, ⟨n₂, hn₂⟩⟩ := h.ends k e hl
    obtain ⟨n', hn', -⟩ := hk.lookup' hn
    obtain ⟨n₂', hn₂', -⟩ := hk.lookup' hn₂
    exact ⟨⟨n', hn'⟩, ⟨n₂', hn₂'⟩⟩

theorem Linked.touched (ht : Touched m m') (h : Linked m) : Linked m' := by
  refine h.nodesKept ht.nodesKept ht.edges fun a id hl => ?_
  rcases ht.names a id hl with hl | ⟨n', hn'⟩
  · exact h.names a id hl
  · obtain ⟨n, hn, -⟩ := ht.nodes.lookup hn'
    exact (h.ids id n hn).1

theorem Linked.claim {ip : String} (hname : useHostname ip hostname → SepFree hostname)
    (h : Linked m) : Linked ({ m with dirty := true }.claimHostname ip hostname) := by
  have hk := claimHostname_kept m ip hostname
  refine h.nodesKept hk.toNodesKept hk.edges fun a id hl => ?_
  unfold claimHostname at hl
  split at hl
  · rename_i hu
    rw [KeyedMap.lookup_insert_eq] at hl
    split at hl
    · cases hl
      exact hname hu.1
    · exact h.names a id hl
  · exact h.names a id hl

section Merge

variable [RuneCase]

/-- An id that leads to a node leads to one after the merge, once it is repointed. -/
theorem exists_repoint (hostname : String) (hne : oldID ≠ newID) {k : String} (hk : ∃ n, m.nodes.lookup k = some n) :
    ∃ n, (m.mergeNodeInto newID oldID hostname).nodes.lookup (repoint newID oldID k) = some n := by
  rw [merge_exists_iff m hostname hne]
  refine ⟨repoint_ne hne k, ?_⟩
  by_cases hko : k = oldID
  · rw [repoint, if_pos hko]
    exact Or.inr ⟨rfl, hko ▸ hk⟩
  · rw [repoint, if_neg hko]
    exact Or.inl hk

theorem Linked.merge (hne : oldID ≠ newID) (hnew : SepFree newID) (h : Linked m) :
    Linked (m.mergeNodeInto newID oldID hostname) where
  wellKeyed := h.wellKeyed.merge hnew hne m.edgesByNode
  ids k n hl := by
    rw [mergeNodeInto_nodes hne] at hl
    split at hl
    · cases hl
    · split at hl
      · rename_i hk
        refine ⟨hk ▸ hnew, fun ip hip => ?_⟩
        rcases (mem_mergedNode_ips hl ip).mp hip with ⟨n₁, hn₁, h₁⟩ | ⟨n₂, hn₂, h₂⟩
        · exact (h.ids _ n₁ hn₁).2 ip h₁
        · exact (h.ids _ n₂ hn₂).2 ip h₂
      · exact h.ids k n hl
  names := h.names
  resolves ip k hl := by
    rw [mergeNodeInto_ipToNodeID] at hl
    obtain ⟨k₀, hk₀, rfl⟩ := Option.map_eq_some_iff.mp hl
    exact exists_repoint hostname hne (h.resolves ip k₀ hk₀)
  ends k e hl := by
    have hl' : (mergeEdges newID oldID m.edges m.edgesByNode).edges.lookup k = some e := hl
    -- the edge comes from one whose endpoints are repointed
    rcases mergeEdges_some (h.wellKeyed.disjoint hnew hne) hl' with
      ⟨he, hi⟩ | ⟨e₀, k', e', he₀, hi, he', rfl⟩ | ⟨k', e', he', -, rfl⟩
    · obtain ⟨hf, ht⟩ := h.ends k e he
      obtain ⟨hfo, hto⟩ := not_or.mp hi
      exact ⟨(merge_exists_iff m hostname hne _).mpr ⟨hfo, Or.inl hf⟩,
        (merge_exists_iff m hostname hne _).mpr ⟨hto, Or.inl ht⟩⟩
    · obtain ⟨hf, ht⟩ := h.ends k e₀ he₀
      obtain ⟨hfo, hto⟩ := not_or.mp hi
      exact ⟨(merge_exists_iff m hostname hne _).mpr ⟨hfo, Or.inl hf⟩,
        (merge_exists_iff m hostname hne _).mpr ⟨hto, Or.inl ht⟩⟩
    · obtain ⟨hf, ht⟩ := h.ends k' e' he'
      have hf' := exists_repoint hostname hne hf
      have ht' := exists_repoint hostname hne ht
      unfold rekeyed target
      rcases getCanonicalEdgeID_cases (repoint newID oldID e'.fromID)
        (repoint newID oldID e'.toID) with hc | hc
      · rw [hc]; exact ⟨hf', ht'⟩
      · rw [hc]; exact ⟨ht', hf'⟩

/-! ## Counting -/

theorem Linked.countEndpoint {nodeID ip : String} {bytes : Nat} {now : Int} (hid : SepFree nodeID)
    (hip : SepFree ip) (h : Linked m) :
    Linked (m.countEndpoint nodeID ip hostname bytes now) := by
  obtain ⟨node, hnodes, hspec⟩ := countEndpoint_nodes m nodeID ip hostname bytes now
  have hold : ∀ {k}, (∃ n, m.nodes.lookup k = some n) →
      ∃ n, (m.countEndpoint nodeID ip hostname bytes now).nodes.lookup k = some n := by
    rintro k ⟨n, hn⟩
    rw [hnodes, KeyedMap.lookup_insert_eq]
    split
    · exact ⟨node, rfl⟩
    · exact ⟨n, hn⟩
  constructor
  · rw [countEndpoint_edges]
    exact h.wellKeyed
  · intro k n hl
    rw [hnodes, KeyedMap.lookup_insert_eq] at hl
    split at hl
    · rename_i hk
      cases hl
      refine ⟨hk ▸ hid, ?_⟩
      cases hn : m.nodes.lookup nodeID with
      | none =>
        rw [hn] at hspec
        rw [hspec.2.1]
        exact fun a ha => List.mem_singleton.mp ha ▸ hip
      | some n₀ =>
        rw [hn] at hspec
        rw [hspec.2.1]
        exact (h.ids nodeID n₀ hn).2
    · exact h.ids k n hl
  · rw [countEndpoint_names]
    exact h.names
  · intro a k hl
    rw [countEndpoint_ipToNodeID, KeyedMap.lookup_insert_eq] at hl
    split at hl
    · cases hl
      exact ⟨node, by rw [hnodes, AList.lookup_insert]⟩
    · exact hold (h.resolves a k hl)
  · intro k e hl
    rw [countEndpoint_edges] at hl
    exact ⟨hold (h.ends k e hl).1, hold (h.ends k e hl).2⟩

omit [RuneCase] in
theorem Linked.addOrUpdateEdge {srcIP dstIP : String} {protocol : Protocol} {bytes : Nat} {now : Int}
    (hsrc : ∃ k, m.ipToNodeID.lookup srcIP = some k)
    (hdst : ∃ k, m.ipToNodeID.lookup dstIP = some k) (h : Linked m) :
    Linked (m.addOrUpdateEdgeLocked srcIP dstIP protocol bytes now) := by
  obtain ⟨a, ha⟩ := hsrc
  obtain ⟨b, hb⟩ := hdst
  have hna := h.resolves srcIP a ha
  have hnb := h.resolves dstIP b hb
  have hk := addOrUpdateEdgeLocked_nodesKept m srcIP dstIP protocol bytes now
  have hnode : ∀ {k}, (∃ n, m.nodes.lookup k = some n) → ∃ n,
      (m.addOrUpdateEdgeLocked srcIP dstIP protocol bytes now).nodes.lookup k = some n := by
    rintro k ⟨n, hn⟩
    obtain ⟨n', hn', -⟩ := hk.lookup' hn
    exact ⟨n', hn'⟩
  -- each edge afterwards is an old one up to counters, or the new one between the two nodes
  have hedge : ∀ k e, (m.addOrUpdateEdgeLocked srcIP dstIP protocol bytes now).edges.lookup k
      = some e → (∃ e₀, m.edges.lookup k = some e₀ ∧ e.id = e₀.id ∧ e.fromID = e₀.fromID
          ∧ e.toID = e₀.toID)
        ∨ (e.id = k ∧ getCanonicalEdgeID a b = (k, e.fromID, e.toID)) := by
    intro k e hl
    obtain ⟨key, f, t, hc⟩ : ∃ key f t, getCanonicalEdgeID a b = (key, f, t) := ⟨_, _, _, rfl⟩
    rw [addOrUpdateEdge_lookup m _ _ _ _ _ (by rw [resolve_eq ha, resolve_eq hb, hc])] at hl
    split at hl
    · rename_i hkey
      cases he : m.edges.lookup key with
      | none =>
        rw [he] at hl
        cases hl
        exact Or.inr ⟨hkey.symm, hkey ▸ hc⟩
      | some e₀ =>
        rw [he] at hl
        cases hl
        obtain ⟨hf, ht, hid⟩ := countPacket_ends e₀ (m.resolve srcIP = f) protocol bytes now
        exact Or.inl ⟨e₀, hkey ▸ he, hid, hf, ht⟩
    · exact Or.inl ⟨e, hl, rfl, rfl, rfl⟩
  obtain ⟨na, hla⟩ := hna
  obtain ⟨nb, hlb⟩ := hnb
  have hends : ∀ {k f t}, getCanonicalEdgeID a b = (k, f, t) →
      (f = a ∧ t = b) ∨ (f = b ∧ t = a) := by
    intro k f t hc
    rcases getCanonicalEdgeID_cases a b with hcase | hcase <;> rw [hc] at hcase <;> cases hcase
    · exact Or.inl ⟨rfl, rfl⟩
    · exact Or.inr ⟨rfl, rfl⟩
  constructor
  · intro k e hl
    rcases hedge k e hl with ⟨e₀, he₀, hid, hf, ht⟩ | ⟨hid, hc⟩
    · rw [hid, hf, ht]
      exact h.wellKeyed k e₀ he₀
    · refine ⟨getCanonicalEdgeID_idem hc, hid, ?_⟩
      rcases hends hc with ⟨hf, ht⟩ | ⟨hf, ht⟩ <;> rw [hf, ht]
      · exact ⟨(h.ids a na hla).1, (h.ids b nb hlb).1⟩
      · exact ⟨(h.ids b nb hlb).1, (h.ids a na hla).1⟩
  · intro k n' hl
    obtain ⟨n, hn, hr⟩ := hk.lookup hl
    rw [hr.ips]
    exact h.ids k n hn
  · rw [addOrUpdateEdge_names]
    exact h.names
  · intro ip k hl
    rw [hk.ipTo] at hl
    exact hnode (h.resolves ip k hl)
  · intro k e hl
    rcases hedge k e hl with ⟨e₀, he₀, -, hf, ht⟩ | ⟨-, hc⟩
    · rw [hf, ht]
      exact ⟨hnode (h.ends k e₀ he₀).1, hnode (h.ends k e₀ he₀).2⟩
    · rcases hends hc with ⟨hf, ht⟩ | ⟨hf, ht⟩ <;> rw [hf, ht]
      · exact ⟨hnode ⟨na, hla⟩, hnode ⟨nb, hlb⟩⟩
      · exact ⟨hnode ⟨nb, hlb⟩, hnode ⟨na, hla⟩⟩

theorem linked_upheld : Upheld SepFree (fun _ _ _ => True) Linked where
  touched ht h := h.touched ht
  admissible h hl := h.ids _ _ hl
  claim hname h := h.claim hname
  merge hne hnew _ h := h.merge hne hnew
  labels hg := groupAddressLabel_sepFree hg
  named h hl := h.names _ _ hl
  endpoint hid hip h := h.countEndpoint hid hip
  packet hsrc hdst h := h.addOrUpdateEdge hsrc hdst

end Merge

end Etherchimp
