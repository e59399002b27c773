import Etherchimp.Proof.Ledger

/-!
# The packet path, change by change

`Identity` follows what a call does to addresses and counters. The lookup tables
and the peer sets need more: which names a re-key rewrites, and that nothing but
the edge path writes a peer. `promoteNodeIDToMAC_eq` and `demoteMACIdentity_eq`
write a re-key out as one merge and one update of each table, and `Touched` is
the finer relation every other change of the path stays within.

A `Stable` invariant is one that merges and touches keep. Unlike a `Closed` one it
is not asked to know that addresses resolve, so it also speaks about managers
that were driven by other calls than `Ingest`.
-/

namespace Etherchimp

open Manager

/-- The node under `k` also keeps its peers, and loses none of its MACs. -/
structure NodeTouched (k : String) (n n' : Node) : Prop extends NodeKept k n n' where
  macs : ∀ mac ∈ n.macs, mac ∈ n'.macs
  peers : n'.peers = n.peers

theorem NodeTouched.refl (k : String) (n : Node) : NodeTouched k n n :=
  ⟨NodeKept.refl k n, fun _ h => h, rfl⟩

theorem NodeTouched.trans (k : String) (a b c : Node) (h : NodeTouched k a b)
    (h' : NodeTouched k b c) : NodeTouched k a c :=
  ⟨h.toNodeKept.trans h'.toNodeKept, fun mac hm => h'.macs mac (h.macs mac hm),
    h'.peers.trans h.peers⟩

/-- A change that keeps the graph; a name it writes points to a node. -/
structure Touched (m m' : Manager) : Prop where
  nodes : KeyedMap.Related NodeTouched m.nodes m'.nodes
  ipTo : m'.ipToNodeID = m.ipToNodeID
  edges : m'.edges = m.edges
  edgesByNode : m'.edgesByNode = m.edgesByNode
  names : ∀ h id, m'.hostnameToNodeID.lookup h = some id →
    m.hostnameToNodeID.lookup h = some id ∨ ∃ n, m'.nodes.lookup id = some n

variable {m m' : Manager}

theorem Touched.nodesKept (h : Touched m m') : NodesKept m m' :=
  ⟨h.nodes.mono fun _ _ _ ht => ht.toNodeKept, h.ipTo⟩

theorem Touched.of_nodes (hn : KeyedMap.Related NodeTouched m.nodes m'.nodes)
    (hi : m'.ipToNodeID = m.ipToNodeID) (he : m'.edges = m.edges)
    (hx : m'.edgesByNode = m.edgesByNode) (hh : m'.hostnameToNodeID = m.hostnameToNodeID) :
    Touched m m' :=
  ⟨hn, hi, he, hx, fun _ _ hl => Or.inl (hh ▸ hl)⟩

theorem Touched.of_nodes_eq (hn : m'.nodes = m.nodes) (hi : m'.ipToNodeID = m.ipToNodeID)
    (he : m'.edges = m.edges) (hx : m'.edgesByNode = m.edgesByNode)
    (hh : m'.hostnameToNodeID = m.hostnameToNodeID) : Touched m m' :=
  Touched.of_nodes (by rw [hn]; exact KeyedMap.related_refl NodeTouched.refl _) hi he hx hh

theorem Touched.refl (m : Manager) : Touched m m := Touched.of_nodes_eq rfl rfl rfl rfl rfl

namespace Manager

variable {nodeID mac : String}

theorem addPortObservationLocked_touched (m : Manager) (srcIP dstIP : String) (dstPort : UInt16) :
    Touched m (m.addPortObservationLocked srcIP dstIP dstPort) := by
  refine Touched.of_nodes ?_ rfl rfl rfl rfl
  have hout : KeyedMap.Related NodeTouched m.nodes
      (m.nodes.adjust ((m.ipToNodeID.lookup srcIP).getD "") fun src =>
        { src with outPackets := src.outPackets + 1 }) :=
    KeyedMap.related_adjust NodeTouched.refl _
      fun n => ⟨⟨rfl, rfl, rfl, Or.inl rfl⟩, fun _ h => h, rfl⟩
  refine KeyedMap.Related.trans NodeTouched.trans hout
    (KeyedMap.related_adjust NodeTouched.refl _ fun n => ?_)
  dsimp only
  split <;> exact ⟨⟨rfl, rfl, rfl, Or.inl rfl⟩, fun _ h => h, rfl⟩

theorem stampDeviceInfoLocked_touched (m : Manager) (pkt : PacketInfo) :
    Touched m (m.stampDeviceInfoLocked pkt) := by
  unfold stampDeviceInfoLocked
  split
  · exact Touched.refl m
  · split
    · exact Touched.refl m
    · exact Touched.of_nodes (KeyedMap.related_adjust NodeTouched.refl _
        fun n => ⟨⟨rfl, rfl, rfl, Or.inl rfl⟩, fun _ h => h, rfl⟩) rfl rfl rfl rfl

variable [RuneCase]

theorem noteMAC_touched (mac : String) {node : Node} (hl : m.nodes.lookup nodeID = some node) :
    Touched m (m.noteMAC nodeID mac node) := by
  unfold noteMAC
  split
  · exact Touched.refl m
  · refine Touched.of_nodes (KeyedMap.related_insert NodeTouched.refl hl ?_) rfl rfl rfl rfl
    exact ⟨⟨rfl, rfl, rfl, Or.inl rfl⟩, fun mc h => List.mem_append_left _ h, rfl⟩

theorem nameNode_touched (id hostname mac : String) (n : Node) :
    NodeTouched id n (nameNode id hostname mac n) :=
  ⟨nameNode_kept id hostname mac n, fun _ h => h, rfl⟩

/-! ## The two re-keys, written out -/

/-- What a re-key to `mac` makes of the hostname table. -/
def patchedNames (names : KeyedMap String String) (nodeID mac hostname : String) :
    KeyedMap String String :=
  let names := if names.lookup nodeID = some nodeID then names.erase nodeID else names
  if hostname ≠ "" ∧ hostname ≠ mac then names.insert hostname mac else names

omit [RuneCase] in
theorem patchedNames_lookup (names : KeyedMap String String) (nodeID mac hostname h : String) :
    (patchedNames names nodeID mac hostname).lookup h
      = if hostname ≠ "" ∧ hostname ≠ mac ∧ h = hostname then some mac
        else if h = nodeID ∧ names.lookup nodeID = some nodeID then none
        else names.lookup h := by
  unfold patchedNames
  dsimp only
  have herase : (if names.lookup nodeID = some nodeID then names.erase nodeID else names).lookup h
      = if h = nodeID ∧ names.lookup nodeID = some nodeID then none else names.lookup h := by
    by_cases hs : names.lookup nodeID = some nodeID
    · rw [if_pos hs, KeyedMap.lookup_erase_eq]
      exact if_congr (and_iff_left hs).symm rfl rfl
    · rw [if_neg hs, if_neg fun hc => hs hc.2]
  by_cases hn : hostname ≠ "" ∧ hostname ≠ mac
  · rw [if_pos hn, KeyedMap.lookup_insert_eq, herase]
    exact if_congr ⟨fun he => ⟨hn.1, hn.2, he⟩, fun hc => hc.2.2⟩ rfl rfl
  · have hskip : ¬ (hostname ≠ "" ∧ hostname ≠ mac ∧ h = hostname) :=
      fun hc => hn ⟨hc.1, hc.2.1⟩
    rw [if_neg hn, herase, if_neg hskip]

/-- **A re-key to a MAC, table by table.** -/
theorem promoteNodeIDToMAC_eq (hp : m.Promotes nodeID mac) {node : Node}
    (hl : m.nodes.lookup nodeID = some node) :
    m.promoteNodeIDToMAC nodeID mac =
      let hostname := promotedHostname node nodeID
      let merged := m.mergeNodeInto mac nodeID hostname
      { merged with
        nodes := merged.nodes.adjust mac (nameNode mac hostname mac)
        macToNodeID := merged.macToNodeID.insert mac mac
        hostnameToNodeID := patchedNames m.hostnameToNodeID nodeID mac hostname } := by
  obtain ⟨hne, hnm, hs, hmac, hid, node', hl', hg⟩ := hp
  rw [hl] at hl'
  cases hl'
  have hme : mac ≠ "" := by
    rintro rfl
    exact absurd hmac (by decide)
  unfold promoteNodeIDToMAC
  rw [if_neg (by simp [hne, hnm, hs, hme]), if_neg (not_not.mpr hmac), hl]
  dsimp only
  rw [if_neg (by simp [hg]), if_neg hid]
  unfold patchedNames
  by_cases hs : m.hostnameToNodeID.lookup nodeID = some nodeID
  · by_cases hc : promotedHostname node nodeID ≠ "" ∧ promotedHostname node nodeID ≠ mac <;>
      simp only [mergeNodeInto_hostnameToNodeID, hs, hc, if_true, if_false, ne_eq, not_false_eq_true,
        and_self]
  · by_cases hc : promotedHostname node nodeID ≠ "" ∧ promotedHostname node nodeID ≠ mac <;>
      simp only [mergeNodeInto_hostnameToNodeID, hs, hc, if_true, if_false, ne_eq, not_false_eq_true,
        and_self]

theorem promoteNodeIDToMAC_eq_self (hp : ¬ m.Promotes nodeID mac) :
    m.promoteNodeIDToMAC nodeID mac = m := by
  rcases promoteNodeIDToMAC_cases m nodeID mac with ⟨he, -⟩ | ⟨hp', -⟩
  · exact he
  · exact absurd hp' hp

/-- The node of the MAC has a host address it can be demoted to. -/
def Demotes (m : Manager) (mac newID : String) : Prop :=
  (∃ node, m.nodes.lookup mac = some node ∧ firstHostIP node.ips = some newID)
    ∧ newID ≠ "" ∧ newID ≠ mac

omit [RuneCase] in
theorem Demotes.unique {newID newID' : String} (h : m.Demotes mac newID)
    (h' : m.Demotes mac newID') : newID = newID' := by
  obtain ⟨⟨node, hl, hf⟩, -⟩ := h
  obtain ⟨⟨node', hl', hf'⟩, -⟩ := h'
  rw [hl] at hl'
  cases hl'
  rw [hf] at hf'
  exact Option.some.inj hf'

/-- **A demotion, table by table.** -/
theorem demoteMACIdentity_eq {newID : String} (hd : m.Demotes mac newID) :
    ∃ hostname, m.demoteMACIdentity mac =
      let merged := m.mergeNodeInto newID mac hostname
      { merged with nodes := merged.nodes.adjust newID (nameNode newID hostname mac) } := by
  obtain ⟨⟨node, hl, hf⟩, hne, hnm⟩ := hd
  unfold demoteMACIdentity
  rw [hl]
  dsimp only
  rw [hf, Option.getD_some, if_neg (not_or.mpr ⟨hne, hnm⟩)]
  exact ⟨_, rfl⟩

theorem demoteMACIdentity_eq_self (hd : ∀ newID, ¬ m.Demotes mac newID) :
    m.demoteMACIdentity mac = m := by
  rcases demoteMACIdentity_cases m mac with he | ⟨node, newID, _, hl, hf, hne, hnm, -⟩
  · exact he
  · exact absurd ⟨⟨node, hl, hf⟩, hne, hnm⟩ (hd newID)

/-- The node a re-key leaves under a MAC exists. -/
theorem mergeNodeInto_exists {newID oldID : String} (hostname : String) (hne : oldID ≠ newID)
    (hold : ∃ n, m.nodes.lookup oldID = some n) :
    ∃ n, (m.mergeNodeInto newID oldID hostname).nodes.lookup newID = some n := by
  obtain ⟨o, ho⟩ := hold
  rw [mergeNodeInto_nodes hne, if_neg hne.symm, if_pos rfl, ← Option.ne_none_iff_exists']
  intro hnone
  rw [mergedNode_eq_none, ho] at hnone
  cases hnone.2

theorem promoteNodeIDToMAC_touched (hp : m.Promotes nodeID mac) : ∃ hostname,
    Touched (m.mergeNodeInto mac nodeID hostname) (m.promoteNodeIDToMAC nodeID mac) := by
  obtain ⟨-, hnm, -, -, -, node, hl, -⟩ := id hp
  refine ⟨promotedHostname node nodeID, ?_⟩
  rw [promoteNodeIDToMAC_eq hp hl]
  dsimp only
  have hrel := KeyedMap.related_adjust (S := NodeTouched) NodeTouched.refl
    (m.mergeNodeInto mac nodeID (promotedHostname node nodeID)).nodes
    (nameNode_touched mac (promotedHostname node nodeID) mac)
  refine ⟨hrel, rfl, rfl, rfl, fun h id hh => ?_⟩
  dsimp only at hh
  rw [patchedNames_lookup] at hh
  split at hh
  · cases hh
    obtain ⟨n, hn⟩ := mergeNodeInto_exists (promotedHostname node nodeID) hnm ⟨node, hl⟩
    obtain ⟨n', hn', -⟩ := hrel.lookup' hn
    exact Or.inr ⟨n', hn'⟩
  · split at hh
    · cases hh
    · exact Or.inl hh

theorem demoteMACIdentity_touched {newID : String} (hd : m.Demotes mac newID) : ∃ hostname,
    Touched (m.mergeNodeInto newID mac hostname) (m.demoteMACIdentity mac) := by
  obtain ⟨hostname, he⟩ := demoteMACIdentity_eq hd
  refine ⟨hostname, ?_⟩
  rw [he]
  exact Touched.of_nodes (KeyedMap.related_adjust NodeTouched.refl _ (nameNode_touched _ _ _))
    rfl rfl rfl rfl

end Manager

/-! ## Invariants that merges and touches keep -/

/--
`I` is kept by everything the MAC path does, given that the ids coming from
outside are admissible (`A`) and the merges meet `P`.
-/
structure Stable [RuneCase] (A : String → Prop) (P : Manager → String → String → Prop)
    (I : Manager → Prop) : Prop where
  touched : ∀ {m m'}, Touched m m' → I m → I m'
  /-- Every id, and every address on a node, is admissible. -/
  admissible : ∀ {m k node}, I m → m.nodes.lookup k = some node → A k ∧ ∀ ip ∈ node.ips, A ip
  claim : ∀ {m ip hostname}, (useHostname ip hostname → A hostname) → I m →
    I ({ m with dirty := true }.claimHostname ip hostname)
  merge : ∀ {m newID oldID hostname}, oldID ≠ newID → A newID → P m newID oldID → I m →
    I (m.mergeNodeInto newID oldID hostname)

namespace Stable

variable [RuneCase] {A : String → Prop} {P : Manager → String → String → Prop}
  {I : Manager → Prop} {nodeID mac ip hostname : String} {now : Int}

theorem mergePrevious (hS : Stable A P I) (hA : A nodeID)
    (hname : useHostname ip hostname → A hostname) (hP : m.previousMerges P ip hostname nodeID)
    (hI : I m) : I (m.mergePrevious ip hostname nodeID) := by
  have hI' := hS.claim hname hI
  unfold Manager.mergePrevious
  dsimp only
  split
  · rename_i hg
    exact hS.merge hg.2 hA (hP hg.1 hg.2) hI'
  · exact hI'

theorem promote (hS : Stable A P I) (hA : ∀ m id, P m mac id → A mac)
    (hP : m.promoteMerges P nodeID mac) (hI : I m) : I (m.promoteNodeIDToMAC nodeID mac) := by
  by_cases hp : m.Promotes nodeID mac
  · obtain ⟨hostname, ht⟩ := promoteNodeIDToMAC_touched hp
    exact hS.touched ht (hS.merge hp.2.1 (hA m nodeID (hP hp)) (hP hp) hI)
  · rw [promoteNodeIDToMAC_eq_self hp]
    exact hI

theorem demote (hS : Stable A P I) (hP : m.demoteMerges P mac) (hI : I m) :
    I (m.demoteMACIdentity mac) := by
  by_cases hd : ∃ newID, m.Demotes mac newID
  · obtain ⟨newID, hd⟩ := hd
    obtain ⟨hostname, ht⟩ := demoteMACIdentity_touched hd
    obtain ⟨⟨node, hl, hf⟩, hne, hnm⟩ := hd
    have hA : A newID := (hS.admissible hI hl).2 newID (List.mem_of_find?_eq_some hf)
    exact hS.touched ht (hS.merge hnm.symm hA (hP node hl newID hf hne hnm) hI)
  · rw [demoteMACIdentity_eq_self fun newID h => hd ⟨newID, h⟩]
    exact hI

theorem recordMAC (hS : Stable A P I) (hA : ∀ m id, P m mac id → A mac)
    (hP : m.recordMerges P nodeID mac now) (hI : I m) : I (m.recordMACLocked nodeID mac now) := by
  rw [recordMACLocked_eq]
  cases hn : m.nodes.lookup nodeID with
  | none => exact hI
  | some node =>
    have hI' := hS.touched (noteMAC_touched mac hn) hI
    have hP' := hP node hn
    have hspec := macCase_spec m nodeID mac now
    have hanchor : ∀ m' : Manager, I m' → I (m'.setAnchor nodeID mac) :=
      fun m' => hS.touched (Touched.of_nodes_eq rfl rfl rfl rfl rfl)
    dsimp only at hP' ⊢
    cases hc : m.macCase nodeID mac now with
    | skip => exact hI
    | note => exact hI'
    | anchor =>
      rw [hc] at hP'
      exact hS.promote hA hP' (hanchor _ hI')
    | confirm =>
      rw [hc] at hP'
      exact hS.promote hA hP' hI'
    | share =>
      rw [hc] at hP'
      have hshare : Touched (m.noteMAC nodeID mac node) ((m.noteMAC nodeID mac node).shareMAC mac) :=
        Touched.of_nodes_eq rfl rfl rfl rfl rfl
      exact hS.demote hP' (hS.touched hshare hI')
    | readdress a =>
      rw [hc] at hP' hspec
      obtain ⟨-, -, -, -, hne, -⟩ := hspec
      exact hS.promote hA hP'.2 (hanchor _ (hS.merge hne (hS.admissible hI hn).1 hP'.1 hI'))

theorem recordEndpointMAC (hS : Stable A P I) (hA : ∀ m id, P m mac id → A mac)
    (hP : m.endpointMerges P ip mac now) (hI : I m) : I (m.recordEndpointMAC ip mac now) := by
  unfold Manager.recordEndpointMAC
  split
  · exact hI
  · rename_i hmac
    split
    · exact hI
    · rename_i id hl
      exact hS.recordMAC hA (hP hmac id hl) hI

end Stable

/-! ## Runs of `Ingest` -/

/-- A stable invariant that counting an endpoint and counting a packet keep too. -/
structure Upheld [RuneCase] (A : String → Prop) (P : Manager → String → String → Prop)
    (I : Manager → Prop) : Prop extends Stable A P I where
  labels : ∀ {ip label}, groupAddressLabel ip = some label → A label
  /-- Every name leads to an admissible id. -/
  named : ∀ {m h id}, I m → m.hostnameToNodeID.lookup h = some id → A id
  endpoint : ∀ {m nodeID ip hostname bytes now}, A nodeID → A ip → I m →
    I (m.countEndpoint nodeID ip hostname bytes now)
  packet : ∀ {m srcIP dstIP protocol bytes now}, (∃ k, m.ipToNodeID.lookup srcIP = some k) →
    (∃ k, m.ipToNodeID.lookup dstIP = some k) → I m →
    I (m.addOrUpdateEdgeLocked srcIP dstIP protocol bytes now)

/-- Every id and name of the call is admissible, and its MACs where they become ids. -/
structure IngestCall.Admissible (A : String → Prop) (P : Manager → String → String → Prop)
    (c : IngestCall) : Prop where
  srcIP : A c.pkt.srcIP
  dstIP : A c.pkt.dstIP
  srcHostname : A c.srcHostname
  dstHostname : A c.dstHostname
  srcMAC : ∀ m id, P m c.pkt.srcMAC id → A c.pkt.srcMAC
  dstMAC : ∀ m id, P m c.pkt.dstMAC id → A c.pkt.dstMAC

section Runs

variable [RuneCase] {A : String → Prop} {P : Manager → String → String → Prop}
  {I : Manager → Prop} {ip hostname : String}

theorem Upheld.addOrUpdateNode (hU : Upheld A P I) (bytes : Nat) (now : Int) (hip : A ip)
    (hname : A hostname) (hP : nodeMerges P m ip hostname) (hI : I m) :
    I (m.addOrUpdateNodeLocked ip hostname bytes now) := by
  have hlabel : A (nodeHostname ip hostname) := by
    unfold nodeHostname
    cases hg : groupAddressLabel ip with
    | none => exact hname
    | some label => exact hU.labels hg
  have hid : A (m.nodeIDFor ip (nodeHostname ip hostname)) := by
    unfold nodeIDFor
    split
    · cases hl : m.hostnameToNodeID.lookup (nodeHostname ip hostname) with
      | none => exact hlabel
      | some id => exact hU.named hI hl
    · exact hip
  exact hU.endpoint hid hip (hU.mergePrevious hid (fun _ => hlabel) hP hI)

/-- An address that resolves goes on resolving. -/
theorem resolves_upheld (ip : String) : Upheld (fun _ => True) (fun _ _ _ => True)
    (fun m => ∃ k, m.ipToNodeID.lookup ip = some k) where
  touched ht h := by rw [ht.ipTo]; exact h
  admissible _ _ := ⟨trivial, fun _ _ => trivial⟩
  claim _ h := by rw [(claimHostname_kept _ _ _).ipTo]; exact h
  merge _ _ _ h := by
    obtain ⟨k, hk⟩ := h
    exact ⟨_, by rw [mergeNodeInto_ipToNodeID, hk]; rfl⟩
  labels _ := trivial
  named _ _ := trivial
  endpoint _ _ h := by
    rw [countEndpoint_ipToNodeID, KeyedMap.lookup_insert_eq]
    split
    · exact ⟨_, rfl⟩
    · exact h
  packet _ _ h := by rw [(addOrUpdateEdgeLocked_nodesKept ..).ipTo]; exact h

theorem addOrUpdateNode_resolves (m : Manager) (ip hostname : String) (bytes : Nat) (now : Int) :
    ∃ k, (m.addOrUpdateNodeLocked ip hostname bytes now).ipToNodeID.lookup ip = some k := by
  unfold addOrUpdateNodeLocked
  dsimp only
  rw [countEndpoint_ipToNodeID, AList.lookup_insert]
  exact ⟨_, rfl⟩

/-- Both addresses of a packet resolve once its endpoints are counted. -/
theorem afterMACs_resolves (m : Manager) (c : IngestCall) :
    (∃ k, (c.afterMACs m).ipToNodeID.lookup c.pkt.srcIP = some k)
      ∧ ∃ k, (c.afterMACs m).ipToNodeID.lookup c.pkt.dstIP = some k := by
  have hmacs : ∀ ip, (∃ k, (c.afterEndpoints m).ipToNodeID.lookup ip = some k) →
      ∃ k, (c.afterMACs m).ipToNodeID.lookup ip = some k := by
    intro ip h
    have hstep : ∀ {m : Manager} {x mac : String} {now : Int},
        (∃ k, m.ipToNodeID.lookup ip = some k) →
        ∃ k, (m.recordEndpointMAC x mac now).ipToNodeID.lookup ip = some k :=
      fun h => (resolves_upheld ip).recordEndpointMAC (fun _ _ _ => trivial)
        (endpointMerges_of_forall (fun _ _ _ => trivial) _ _ _ _) h
    exact hstep (hstep h)
  refine ⟨hmacs _ ?_, hmacs _ (addOrUpdateNode_resolves ..)⟩
  exact (resolves_upheld c.pkt.srcIP).addOrUpdateNode c.pkt.length c.clock.dstSeen trivial trivial
    (fun _ _ => trivial) (addOrUpdateNode_resolves ..)

theorem Upheld.ingest (hU : Upheld A P I) (m : Manager) (c : IngestCall) (hA : c.Admissible A P)
    (hP : c.Merges P m) (hI : I m) : I (c.apply m) := by
  obtain ⟨p1, p2, p3, p4⟩ := hP
  have h0 : I { m with dirty := true } :=
    hU.touched (Touched.of_nodes_eq (m := m) rfl rfl rfl rfl rfl) hI
  have h1 : I (c.afterSrc m) :=
    hU.addOrUpdateNode c.pkt.length c.clock.srcSeen hA.srcIP hA.srcHostname p1 h0
  have h2 : I (c.afterEndpoints m) :=
    hU.addOrUpdateNode c.pkt.length c.clock.dstSeen hA.dstIP hA.dstHostname p2 h1
  have h3 : I (c.afterSrcMAC m) := hU.recordEndpointMAC hA.srcMAC p3 h2
  have h4 : I (c.afterMACs m) := hU.recordEndpointMAC hA.dstMAC p4 h3
  obtain ⟨hsrc, hdst⟩ := afterMACs_resolves m c
  have h5 : I (c.afterEdge m) := hU.packet hsrc hdst h4
  rw [IngestCall.apply_eq]
  exact hU.touched (stampDeviceInfoLocked_touched _ _)
    (hU.touched (addPortObservationLocked_touched _ _ _ _) h5)

/-- **An upheld invariant holds after every run whose merges all meet its condition.** -/
theorem Upheld.run (hU : Upheld A P I) (h0 : I newManager) {calls : List IngestCall}
    (hA : ∀ c ∈ calls, c.Admissible A P)
    (hP : Run.Guarded IngestCall.apply (fun m c => c.Merges P m) newManager calls) :
    I (ingestAll calls) :=
  Run.invariant h0 (fun m c hI hok => hU.ingest m c hok.1 hok.2 hI)
    (Run.Guarded.and (Run.guarded_of_forall newManager hA) hP)

end Runs

end Etherchimp
