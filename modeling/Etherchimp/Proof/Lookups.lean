import Mathlib
import Etherchimp.Proof.Attribution
import Etherchimp.Proof.Linked
import Etherchimp.Proof.SharedMAC

/-!
# Lookups that lead to a node

The MAC table never dangles: a MAC is noted on the node before it is anchored
there, a merge takes both along, and a node that decays takes its own anchors.

The hostname table has no such discipline. A merge repoints addresses and MACs and
leaves the names at the id it removes; a re-key to a MAC repairs the one name it
gives the node and the one that was the old id. `addOrUpdateNode_names_iff`,
`recordMAC_names_iff` and `removeStaleNodes_names_iff` say, for each call, exactly
when every name still leads to a node.
-/

namespace Etherchimp

open Manager

/-- Every name leads to a node. -/
def NamesLive (m : Manager) : Prop :=
  ∀ h id, m.hostnameToNodeID.lookup h = some id → ∃ n, m.nodes.lookup id = some n

/-- Every node is under its own id, and every anchored MAC is noted on its anchor. -/
structure AnchorsLive (m : Manager) : Prop where
  keyed : ∀ k n, m.nodes.lookup k = some n → n.ip = k
  anchored : ∀ mac id, m.macToNodeID.lookup mac = some id →
    ∃ n, m.nodes.lookup id = some n ∧ mac ∈ n.macs

/-! ## Anchors -/

section Anchors

/-- The node keeps its MACs; its id stays or becomes the key. -/
structure MACsKept (k : String) (n n' : Node) : Prop where
  macs : ∀ mac ∈ n.macs, mac ∈ n'.macs
  ip : n'.ip = n.ip ∨ n'.ip = k

theorem MACsKept.refl (k : String) (n : Node) : MACsKept k n n := ⟨fun _ h => h, Or.inl rfl⟩

theorem MACsKept.trans (k : String) (a b c : Node) (h : MACsKept k a b) (h' : MACsKept k b c) :
    MACsKept k a c :=
  ⟨fun mac hm => h'.macs mac (h.macs mac hm),
    h'.ip.elim (fun e => h.ip.imp (fun e' => e.trans e') (fun e' => e.trans e')) Or.inr⟩

variable {m m' : Manager} {nodeID mac newID oldID hostname : String}

theorem AnchorsLive.related (hn : KeyedMap.Related MACsKept m.nodes m'.nodes)
    (ha : ∀ mac id, m'.macToNodeID.lookup mac = some id → m.macToNodeID.lookup mac = some id
      ∨ ∃ n', m'.nodes.lookup id = some n' ∧ mac ∈ n'.macs)
    (h : AnchorsLive m) : AnchorsLive m' where
  keyed k n' hl := by
    obtain ⟨n, hn, hr⟩ := hn.lookup hl
    exact hr.ip.elim (fun he => he.trans (h.keyed k n hn)) id
  anchored mac id hl := by
    rcases ha mac id hl with hl | hnew
    · obtain ⟨n, hn₀, hm⟩ := h.anchored mac id hl
      obtain ⟨n', hn', hr⟩ := hn.lookup' hn₀
      exact ⟨n', hn', hr.macs mac hm⟩
    · exact hnew

theorem AnchorsLive.touched (ht : Touched m m') (ha : m'.macToNodeID = m.macToNodeID)
    (h : AnchorsLive m) : AnchorsLive m' :=
  h.related (ht.nodes.mono fun _ _ _ hr => ⟨hr.macs, hr.ip⟩) fun _ _ hl => Or.inl (ha ▸ hl)

theorem addPeersLocked_macs (m : Manager) (aID bID : String) :
    KeyedMap.Related MACsKept m.nodes (m.addPeersLocked aID bID).nodes := by
  have hpeer : ∀ (nodes : KeyedMap String Node) (a b : String),
      KeyedMap.Related MACsKept nodes (addPeer nodes a b) :=
    fun nodes a b => KeyedMap.related_adjust MACsKept.refl nodes fun n => ⟨fun _ h => h, Or.inl rfl⟩
  unfold addPeersLocked
  split
  · exact KeyedMap.related_refl MACsKept.refl _
  · split
    · exact KeyedMap.related_refl MACsKept.refl _
    · exact KeyedMap.Related.trans MACsKept.trans (hpeer _ _ _) (hpeer _ _ _)

theorem AnchorsLive.addOrUpdateEdge (h : AnchorsLive m) (srcIP dstIP : String) (protocol : Protocol)
    (bytes : Nat) (now : Int) :
    AnchorsLive (m.addOrUpdateEdgeLocked srcIP dstIP protocol bytes now) := by
  refine h.related ?_ fun mac id hl => Or.inl ?_
  · unfold addOrUpdateEdgeLocked
    dsimp only
    generalize (m.countProtocol protocol).resolve srcIP = a,
      (m.countProtocol protocol).resolve dstIP = b
    obtain ⟨key, f, t⟩ := getCanonicalEdgeID a b
    have hpeers := addPeersLocked_macs (m.countProtocol protocol) f t
    dsimp only
    unfold countOnEdge
    split <;> exact hpeers
  · rw [(macShared_edge m srcIP dstIP protocol bytes now).2] at hl
    exact hl

variable [RuneCase]

/-- The merged node has the MACs of the two. -/
theorem mem_mergedNode_macs {x y : Option Node} {n : Node}
    (h : mergedNode newID hostname x y = some n) :
    (∀ n₁, x = some n₁ → ∀ mac ∈ n₁.macs, mac ∈ n.macs)
      ∧ ∀ n₂, y = some n₂ → ∀ mac ∈ n₂.macs, mac ∈ n.macs := by
  cases x with
  | none =>
    cases y with
    | none => cases h
    | some o =>
      cases h
      exact ⟨nofun, fun n₂ he mac hm => by cases he; exact hm⟩
  | some n₁ =>
    cases y with
    | none =>
      cases h
      exact ⟨fun n₂ he mac hm => by cases he; exact hm, nofun⟩
    | some o =>
      cases h
      constructor
      · intro n₂ he mac hm
        cases he
        exact List.mem_append_left _ hm
      · intro n₂ he mac hm
        cases he
        by_cases hin : mac ∈ n₁.macs
        · exact List.mem_append_left _ hin
        · exact List.mem_append_right _ (List.mem_filter.mpr ⟨hm, decide_eq_true hin⟩)

/-- A node's MACs are found where its id is repointed to. -/
theorem merge_macs (m : Manager) (hostname : String) (hne : oldID ≠ newID) {k : String} {n : Node}
    (hl : m.nodes.lookup k = some n) :
    ∃ n', (m.mergeNodeInto newID oldID hostname).nodes.lookup (repoint newID oldID k) = some n'
      ∧ ∀ mac ∈ n.macs, mac ∈ n'.macs := by
  obtain ⟨n', hl'⟩ := exists_repoint hostname hne ⟨n, hl⟩
  refine ⟨n', hl', ?_⟩
  rw [mergeNodeInto_nodes hne, if_neg (repoint_ne hne k)] at hl'
  by_cases hko : k = oldID
  · subst hko
    rw [repoint, if_pos rfl, if_pos rfl] at hl'
    exact (mem_mergedNode_macs hl').2 n hl
  · rw [repoint, if_neg hko] at hl'
    by_cases hkn : k = newID
    · subst hkn
      rw [if_pos rfl] at hl'
      exact (mem_mergedNode_macs hl').1 n hl
    · rw [if_neg hkn, hl] at hl'
      cases hl'
      exact fun _ hm => hm

theorem AnchorsLive.merge (hostname : String) (hne : oldID ≠ newID) (h : AnchorsLive m) :
    AnchorsLive (m.mergeNodeInto newID oldID hostname) where
  keyed k n hl := by
    rw [mergeNodeInto_nodes hne] at hl
    split at hl
    · cases hl
    · split at hl
      · rename_i hk
        rw [hk]
        exact mergedNode_ip (fun n₁ hn₁ => h.keyed newID n₁ hn₁) hl
      · exact h.keyed k n hl
  anchored mac id hl := by
    rw [mergeNodeInto_macToNodeID] at hl
    obtain ⟨k, hk, rfl⟩ := Option.map_eq_some_iff.mp hl
    obtain ⟨n, hn, hm⟩ := h.anchored mac k hk
    obtain ⟨n', hn', hmacs⟩ := merge_macs m hostname hne hn
    exact ⟨n', hn', hmacs mac hm⟩

theorem AnchorsLive.countEndpoint {ip : String} {bytes : Nat} {now : Int} (h : AnchorsLive m) :
    AnchorsLive (m.countEndpoint nodeID ip hostname bytes now) := by
  have hanchors : (m.countEndpoint nodeID ip hostname bytes now).macToNodeID = m.macToNodeID := by
    unfold Manager.countEndpoint
    dsimp only
    split <;> rfl
  cases hn : m.nodes.lookup nodeID with
  | some n =>
    refine h.related ?_ fun mac id hl => Or.inl (hanchors ▸ hl)
    unfold Manager.countEndpoint
    dsimp only
    rw [hn]
    refine KeyedMap.related_insert MACsKept.refl hn ?_
    unfold seeNode
    dsimp only
    repeat' split
    all_goals exact ⟨fun _ hm => hm, Or.inl rfl⟩
  | none =>
    obtain ⟨node, hnodes, hspec⟩ := countEndpoint_nodes m nodeID ip hostname bytes now
    rw [hn] at hspec
    constructor
    · intro k n hl
      rw [hnodes, KeyedMap.lookup_insert_eq] at hl
      split at hl
      · rename_i hk
        cases hl
        exact hspec.1.trans hk.symm
      · exact h.keyed k n hl
    · intro mac id hl
      rw [hanchors] at hl
      obtain ⟨n, hl', hm⟩ := h.anchored mac id hl
      refine ⟨n, ?_, hm⟩
      rw [hnodes, AList.lookup_insert_ne, hl']
      rintro rfl
      rw [hn] at hl'
      cases hl'

theorem AnchorsLive.addOrUpdateNode {ip : String} {bytes : Nat} {now : Int} (h : AnchorsLive m) :
    AnchorsLive (m.addOrUpdateNodeLocked ip hostname bytes now) := by
  have hclaim : ∀ name, AnchorsLive ({ m with dirty := true }.claimHostname ip name) := by
    intro name
    refine h.related ?_ fun mac id hl => Or.inl ?_
    · unfold claimHostname
      split <;> exact KeyedMap.related_refl MACsKept.refl _
    · unfold claimHostname at hl
      split at hl <;> exact hl
  refine AnchorsLive.countEndpoint ?_
  unfold mergePrevious
  dsimp only
  split
  · rename_i hg
    exact (hclaim _).merge _ hg.2
  · exact hclaim _

theorem AnchorsLive.promote (hnode : ∃ n, m.nodes.lookup nodeID = some n ∧ mac ∈ n.macs)
    (h : AnchorsLive m) : AnchorsLive (m.promoteNodeIDToMAC nodeID mac) := by
  by_cases hp : m.Promotes nodeID mac
  · obtain ⟨n, hl, hm⟩ := hnode
    obtain ⟨n', hl', hmacs⟩ := merge_macs m (promotedHostname n nodeID) hp.2.1 hl
    rw [repoint, if_pos rfl] at hl'
    rw [promoteNodeIDToMAC_eq hp hl]
    have hrel := KeyedMap.related_adjust MACsKept.refl
      (m.mergeNodeInto mac nodeID (promotedHostname n nodeID)).nodes (k := mac)
      (f := nameNode mac (promotedHostname n nodeID) mac) fun n => ⟨fun _ h => h, Or.inr rfl⟩
    refine (h.merge _ hp.2.1).related hrel fun mac' id hla => ?_
    dsimp only at hla
    rw [KeyedMap.lookup_insert_eq] at hla
    split at hla
    · rename_i hmac
      cases hla
      obtain ⟨n'', hl'', hr⟩ := hrel.lookup' hl'
      exact Or.inr ⟨n'', hl'', hr.macs mac' (hmacs mac' (hmac ▸ hm))⟩
    · exact Or.inl hla
  · rw [promoteNodeIDToMAC_eq_self hp]
    exact h

theorem AnchorsLive.demote (h : AnchorsLive m) : AnchorsLive (m.demoteMACIdentity mac) := by
  by_cases hd : ∃ newID, m.Demotes mac newID
  · obtain ⟨newID, hd⟩ := hd
    obtain ⟨hostname, he⟩ := demoteMACIdentity_eq hd
    rw [he]
    dsimp only
    refine AnchorsLive.related (m := m.mergeNodeInto newID mac hostname) ?_
      (fun mac' id hl => Or.inl hl) (h.merge hostname hd.2.2.symm)
    exact KeyedMap.related_adjust MACsKept.refl _
      fun n => ⟨(nameNode_touched newID hostname mac n).macs, Or.inr rfl⟩
  · rw [demoteMACIdentity_eq_self fun newID hd' => hd ⟨newID, hd'⟩]
    exact h

/-- The MAC is on the node once it is noted. -/
theorem noteMAC_macs {node : Node} (mac : String) (hl : m.nodes.lookup nodeID = some node) :
    ∃ n, (m.noteMAC nodeID mac node).nodes.lookup nodeID = some n ∧ mac ∈ n.macs := by
  unfold noteMAC
  split
  · rename_i hm
    exact ⟨node, hl, hm⟩
  · refine ⟨_, AList.lookup_insert _, ?_⟩
    rw [rebuild_macs]
    exact List.mem_append_right _ (List.mem_singleton_self mac)

omit [RuneCase] in
theorem AnchorsLive.setAnchor (hnode : ∃ n, m.nodes.lookup nodeID = some n ∧ mac ∈ n.macs)
    (h : AnchorsLive m) : AnchorsLive (m.setAnchor nodeID mac) := by
  refine AnchorsLive.related (m := m) (KeyedMap.related_refl MACsKept.refl _)
    (fun mac' id hl => ?_) h
  have hl : (m.macToNodeID.insert mac nodeID).lookup mac' = some id := hl
  rw [KeyedMap.lookup_insert_eq] at hl
  split at hl
  · rename_i hm
    cases hl
    exact Or.inr (hm ▸ hnode)
  · exact Or.inl hl

theorem AnchorsLive.recordMAC {now : Int} (h : AnchorsLive m) :
    AnchorsLive (m.recordMACLocked nodeID mac now) := by
  rw [recordMACLocked_eq]
  cases hn : m.nodes.lookup nodeID with
  | none => exact h
  | some node =>
    obtain ⟨-, hanchors, -, -⟩ := noteMAC_tables m nodeID mac node
    have hnoted := h.touched (noteMAC_touched mac hn) hanchors
    have hmac := noteMAC_macs mac hn
    have hspec := macCase_spec m nodeID mac now
    dsimp only
    cases hc : m.macCase nodeID mac now with
    | skip => exact h
    | note => exact hnoted
    | anchor => exact (hnoted.setAnchor hmac).promote hmac
    | confirm => exact hnoted.promote hmac
    | share =>
      refine AnchorsLive.demote (AnchorsLive.related (m := m.noteMAC nodeID mac node)
        (KeyedMap.related_refl MACsKept.refl _) (fun mac' id hl => ?_) hnoted)
      have hl : ((m.noteMAC nodeID mac node).macToNodeID.erase mac).lookup mac' = some id := hl
      rw [KeyedMap.lookup_erase_eq] at hl
      split at hl
      · cases hl
      · exact Or.inl hl
    | readdress a =>
      rw [hc] at hspec
      obtain ⟨-, -, -, -, hane, -⟩ := hspec
      obtain ⟨n, hl, hm⟩ := hmac
      obtain ⟨n', hl', hmacs⟩ := merge_macs (m.noteMAC nodeID mac node) node.hostname hane hl
      rw [repoint, if_neg hane.symm] at hl'
      have hmerged := (hnoted.merge node.hostname hane).setAnchor
        ⟨n', hl', hmacs mac hm⟩
      exact hmerged.promote ⟨n', hl', hmacs mac hm⟩

theorem AnchorsLive.ingest (c : IngestCall) (h : AnchorsLive m) : AnchorsLive (c.apply m) := by
  have hmacs : ∀ {m : Manager} {ip mac : String} {now : Int}, AnchorsLive m →
      AnchorsLive (m.recordEndpointMAC ip mac now) := by
    intro m ip mac now h
    unfold recordEndpointMAC
    split
    · exact h
    · split
      · exact h
      · exact h.recordMAC
  have h0 : AnchorsLive { m with dirty := true } := ⟨h.keyed, h.anchored⟩
  have h1 : AnchorsLive (c.afterMACs m) := hmacs (hmacs h0.addOrUpdateNode.addOrUpdateNode)
  have h2 : AnchorsLive (c.afterEdge m) := h1.addOrUpdateEdge ..
  rw [IngestCall.apply_eq]
  exact (h2.touched (addPortObservationLocked_touched ..) rfl).touched
    (stampDeviceInfoLocked_touched ..) (macShared_stamp _ _).2

omit [RuneCase] in
theorem AnchorsLive.removeNode {node : Node} (hl : m.nodes.lookup node.ip = some node)
    (h : AnchorsLive m) : AnchorsLive (m.removeNode node) where
  keyed k n hk := by
    rw [show (m.removeNode node).nodes = m.nodes.erase node.ip from rfl,
      KeyedMap.lookup_erase_eq] at hk
    split at hk
    · cases hk
    · exact h.keyed k n hk
  anchored mac id ha := by
    rw [removeNode_macToNodeID] at ha
    split at ha
    · cases ha
    · rename_i hstay
      obtain ⟨n, hn, hm⟩ := h.anchored mac id ha
      refine ⟨n, ?_, hm⟩
      show (m.nodes.erase node.ip).lookup id = some n
      rw [AList.lookup_erase_ne, hn]
      rintro rfl
      rw [hl] at hn
      cases hn
      exact hstay ⟨hm, ha⟩

end Anchors

/-! ## Names -/

section Names

/-- Every name of the id satisfies `Q`. -/
def Named (m : Manager) (id : String) (Q : String → Prop) : Prop :=
  ∀ x ∈ m.hostnameToNodeID.entries, x.2 = id → Q x.1

instance (m : Manager) (id : String) (Q : String → Prop) [DecidablePred Q] :
    Decidable (Named m id Q) := inferInstanceAs (Decidable (∀ _ ∈ _, _))

theorem named_iff {m : Manager} {id : String} {Q : String → Prop} :
    Named m id Q ↔ ∀ h, m.hostnameToNodeID.lookup h = some id → Q h := by
  constructor
  · intro hn h hl
    exact hn ⟨h, id⟩ ((KeyedMap.mem_entries_iff _ _ _).mpr hl) rfl
  · rintro hn ⟨h, id'⟩ hx rfl
    exact hn h ((KeyedMap.mem_entries_iff _ _ _).mp hx)

variable [RuneCase] {m : Manager} {nodeID mac ip hostname : String} {now : Int}

/-- The names an endpoint may claim. -/
theorem addOrUpdateNode_hostnames (m : Manager) (ip hostname : String) (bytes : Nat) (now : Int)
    (h : String) :
    (m.addOrUpdateNodeLocked ip hostname bytes now).hostnameToNodeID.lookup h
      = if useHostname ip (nodeHostname ip hostname) ∧ h = nodeHostname ip hostname
          ∧ m.hostnameToNodeID.lookup h = none then some h
        else m.hostnameToNodeID.lookup h := by
  have hkeep : (m.addOrUpdateNodeLocked ip hostname bytes now).hostnameToNodeID
      = ({ m with dirty := true }.claimHostname ip (nodeHostname ip hostname)).hostnameToNodeID := by
    unfold addOrUpdateNodeLocked mergePrevious
    dsimp only
    rw [countEndpoint_names]
    split
    · rw [mergeNodeInto_hostnameToNodeID]
    · rfl
  rw [hkeep]
  unfold claimHostname
  by_cases hc : useHostname ip (nodeHostname ip hostname)
      ∧ m.hostnameToNodeID.lookup (nodeHostname ip hostname) = none
  · rw [if_pos hc]
    dsimp only
    rw [KeyedMap.lookup_insert_eq]
    by_cases hh : h = nodeHostname ip hostname
    · subst hh
      rw [if_pos rfl, if_pos ⟨hc.1, rfl, hc.2⟩]
    · rw [if_neg hh, if_neg fun hc' => hh hc'.2.1]
  · rw [if_neg hc, if_neg]
    rintro ⟨hu, rfl, hnone⟩
    exact hc ⟨hu, hnone⟩

namespace Manager

/-- No name is left at the id that counting the endpoint folds away. -/
def KeepsEndpointNames (m : Manager) (ip hostname : String) : Prop :=
  let existingNodeID := (m.ipToNodeID.lookup ip).getD ""
  existingNodeID ≠ "" → existingNodeID ≠ m.nodeIDFor ip (nodeHostname ip hostname) →
    Named m existingNodeID fun _ => False

/-- The re-key to the MAC points this name at it. -/
def Repoints (m : Manager) (nodeID mac h : String) : Prop :=
  ∃ node, m.nodes.lookup nodeID = some node ∧ h = promotedHostname node nodeID ∧ h ≠ "" ∧ h ≠ mac

/-- The re-key rewrites every name of the id it removes. -/
def KeepsPromotedNames (m : Manager) (nodeID mac : String) : Prop :=
  m.Promotes nodeID mac → Named m nodeID fun h => h = nodeID ∨ m.Repoints nodeID mac h

/-- No name is left at an id that this way of recording the MAC removes. -/
def KeepsCaseNames (m : Manager) (nodeID mac : String) (node : Node) : MACCase → Prop
  | .skip | .note => True
  | .anchor | .confirm => (m.noteMAC nodeID mac node).KeepsPromotedNames nodeID mac
  | .share => ∀ anchor, m.nodes.lookup mac = some anchor → ∀ newID,
      firstHostIP anchor.ips = some newID → newID ≠ "" → newID ≠ mac →
        Named m mac fun _ => False
  | .readdress anchorID =>
      let merged := (m.noteMAC nodeID mac node).mergeNodeInto nodeID anchorID node.hostname
      if merged.Promotes nodeID mac then
        Named m nodeID (fun h => h = nodeID ∨ merged.Repoints nodeID mac h)
          ∧ Named m anchorID fun h => anchorID = mac ∨ merged.Repoints nodeID mac h
      else Named m anchorID fun _ => False

/-- No name is left at an id that recording the MAC removes. -/
def KeepsMACNames (m : Manager) (nodeID mac : String) (now : Int) : Prop :=
  ∀ node, m.nodes.lookup nodeID = some node →
    m.KeepsCaseNames nodeID mac node (m.macCase nodeID mac now)

def KeepsEndpointMACNames (m : Manager) (ip mac : String) (now : Int) : Prop :=
  mac ≠ "" → ∀ id, m.ipToNodeID.lookup ip = some id → m.KeepsMACNames id mac now

instance (m : Manager) (ip hostname : String) : Decidable (m.KeepsEndpointNames ip hostname) := by
  unfold KeepsEndpointNames; infer_instance

instance (m : Manager) (nodeID mac h : String) : Decidable (m.Repoints nodeID mac h) := by
  unfold Repoints; infer_instance

instance (m : Manager) (nodeID mac : String) : Decidable (m.KeepsPromotedNames nodeID mac) := by
  unfold KeepsPromotedNames; infer_instance

instance (m : Manager) (nodeID mac : String) (node : Node) (c : MACCase) :
    Decidable (m.KeepsCaseNames nodeID mac node c) := by
  cases c <;> unfold KeepsCaseNames <;> infer_instance

instance (m : Manager) (nodeID mac : String) (now : Int) :
    Decidable (m.KeepsMACNames nodeID mac now) := by
  unfold KeepsMACNames; infer_instance

instance (m : Manager) (ip mac : String) (now : Int) :
    Decidable (m.KeepsEndpointMACNames ip mac now) := by
  unfold KeepsEndpointMACNames; infer_instance

end Manager

/-- **Counting an endpoint keeps every name alive exactly when it strands none.** -/
theorem addOrUpdateNode_names_iff (bytes : Nat) (h : NamesLive m) :
    NamesLive (m.addOrUpdateNodeLocked ip hostname bytes now)
      ↔ m.KeepsEndpointNames ip hostname := by
  have hexists := addOrUpdateNode_exists_iff m ip hostname bytes now
  have hnames := addOrUpdateNode_hostnames m ip hostname bytes now
  unfold KeepsEndpointNames
  dsimp only
  constructor
  · intro h' hne hnode
    rw [named_iff]
    intro name hl
    have hold : ¬ (useHostname ip (nodeHostname ip hostname) ∧ name = nodeHostname ip hostname
        ∧ m.hostnameToNodeID.lookup name = none) := by
      rintro ⟨-, -, hnone⟩
      rw [hl] at hnone
      cases hnone
    rcases (hexists _).mp (h' name _ (by rw [hnames, if_neg hold]; exact hl)) with hk | ⟨-, hk⟩
    · exact hnode hk
    · exact hk ((foldedBy_iff ..).mpr ⟨rfl, hne, hnode⟩)
  · intro hkeep name id hl
    rw [hexists]
    rw [hnames] at hl
    split at hl
    · rename_i hc
      cases hl
      left
      obtain ⟨hu, rfl, hnone⟩ := hc
      unfold nodeIDFor
      rw [if_pos hu, hnone]
      rfl
    · refine Or.inr ⟨h name id hl, fun hf => ?_⟩
      obtain ⟨rfl, hne, hnode⟩ := (foldedBy_iff ..).mp hf
      exact named_iff.mp (hkeep hne hnode) name hl

/-- Every name after a re-key to a MAC is rewritten, or leads to an id that stays. -/
theorem promote_names_iff (hp : m.Promotes nodeID mac) :
    NamesLive (m.promoteNodeIDToMAC nodeID mac) ↔ ∀ h id, m.hostnameToNodeID.lookup h = some id →
      m.Repoints nodeID mac h ∨ (h = nodeID ∧ id = nodeID)
        ∨ (id ≠ nodeID ∧ ((∃ n, m.nodes.lookup id = some n) ∨ id = mac)) := by
  obtain ⟨-, hnm, -, -, -, node, hl, -⟩ := id hp
  have hnames : ∀ h, (m.promoteNodeIDToMAC nodeID mac).hostnameToNodeID.lookup h
      = if m.Repoints nodeID mac h then some mac
        else if h = nodeID ∧ m.hostnameToNodeID.lookup nodeID = some nodeID then none
        else m.hostnameToNodeID.lookup h := by
    intro h
    rw [promoteNodeIDToMAC_eq hp hl]
    refine (patchedNames_lookup ..).trans (if_congr ?_ rfl rfl)
    unfold Repoints
    rw [hl]
    simp only [Option.some.injEq, exists_eq_left']
    constructor
    · rintro ⟨h1, h2, rfl⟩
      exact ⟨rfl, h1, h2⟩
    · rintro ⟨rfl, h1, h2⟩
      exact ⟨h1, h2, rfl⟩
  constructor
  · intro h' name id hid
    by_cases hr : m.Repoints nodeID mac name
    · exact Or.inl hr
    by_cases hd : name = nodeID ∧ m.hostnameToNodeID.lookup nodeID = some nodeID
    · obtain ⟨rfl, hd⟩ := hd
      rw [hid] at hd
      cases hd
      exact Or.inr (Or.inl ⟨rfl, rfl⟩)
    · have hafter := hnames name
      rw [if_neg hr, if_neg hd, hid] at hafter
      exact Or.inr (Or.inr ((promote_exists_iff hp id).mp (h' name id hafter)))
  · intro hall name id hid
    rw [hnames] at hid
    rw [promote_exists_iff hp]
    split at hid
    · cases hid
      exact ⟨hnm.symm, Or.inr rfl⟩
    · rename_i hr
      split at hid
      · cases hid
      · rename_i hd
        rcases hall name id hid with hr' | ⟨rfl, rfl⟩ | hlive
        · exact absurd hr' hr
        · exact absurd ⟨rfl, hid⟩ hd
        · exact hlive

theorem promote_namesLive_iff (h : NamesLive m) :
    NamesLive (m.promoteNodeIDToMAC nodeID mac) ↔ m.KeepsPromotedNames nodeID mac := by
  unfold KeepsPromotedNames
  by_cases hp : m.Promotes nodeID mac
  · rw [promote_names_iff hp, named_iff]
    constructor
    · intro hall _ name hl
      rcases hall name nodeID hl with hr | ⟨he, -⟩ | ⟨hne, -⟩
      · exact Or.inr hr
      · exact Or.inl he
      · exact absurd rfl hne
    · intro hk name id hl
      by_cases hid : id = nodeID
      · subst hid
        rcases hk hp name hl with he | hr
        · exact Or.inr (Or.inl ⟨he, rfl⟩)
        · exact Or.inl hr
      · exact Or.inr (Or.inr ⟨hid, Or.inl (h name id hl)⟩)
  · rw [promoteNodeIDToMAC_eq_self hp]
    exact iff_of_true h fun hp' => absurd hp' hp

/-- The name table after a MAC is noted. -/
theorem noteMAC_namesLive (mac : String) {node : Node} (hn : m.nodes.lookup nodeID = some node)
    (h : NamesLive m) : NamesLive (m.noteMAC nodeID mac node) := by
  intro name id hl
  rw [(noteMAC_tables m nodeID mac node).2.2.1] at hl
  exact ((noteMAC_kept mac hn).toNodesKept.exists_iff id).mpr (h name id hl)

/-- **Recording a MAC keeps every name alive exactly when it strands none.** -/
theorem recordMAC_names_iff {node : Node} (hn : m.nodes.lookup nodeID = some node)
    (h : NamesLive m) :
    NamesLive (m.recordMACLocked nodeID mac now) ↔ m.KeepsMACNames nodeID mac now := by
  rw [recordMACLocked_eq, hn]
  have hnoted := noteMAC_namesLive mac hn h
  have hkept := (noteMAC_kept mac hn).toNodesKept
  have hnames := (noteMAC_tables m nodeID mac node).2.2.1
  have hspec := macCase_spec m nodeID mac now
  have hcond : m.KeepsMACNames nodeID mac now ↔ _ :=
    ⟨fun hk => hk node hn, fun hk node' hl' => by rw [hn] at hl'; cases hl'; exact hk⟩
  rw [hcond]
  dsimp only
  cases hc : m.macCase nodeID mac now with
  | skip => exact iff_of_true h trivial
  | note => exact iff_of_true hnoted trivial
  | anchor =>
    exact promote_namesLive_iff (m := (m.noteMAC nodeID mac node).setAnchor nodeID mac) hnoted
  | confirm => exact promote_namesLive_iff hnoted
  | share =>
    dsimp only
    by_cases hd : ∃ newID, m.Demotes mac newID
    · obtain ⟨newID, hd⟩ := hd
      have hexists := demote_exists_iff ((shareMAC_demotes_iff mac hn newID).mpr hd)
      obtain ⟨⟨anchor, hl, hf⟩, hne, hnm⟩ := hd
      constructor
      · intro h' anchor' hl' newID' hf' _ _
        rw [named_iff]
        intro name hname
        refine ((hexists mac).mp (h' name mac ?_)).1 rfl
        rw [demoteMACIdentity_names]
        exact hnames ▸ hname
      · intro hk name id hid
        rw [demoteMACIdentity_names] at hid
        have hbefore : m.hostnameToNodeID.lookup name = some id := hnames ▸ hid
        rw [hexists]
        refine ⟨fun he => ?_, Or.inl ((hkept.exists_iff id).mpr (h name id hbefore))⟩
        exact named_iff.mp (hk anchor hl newID hf hne hnm) name (he ▸ hbefore)
    · have hself : ∀ newID, ¬ ((m.noteMAC nodeID mac node).shareMAC mac).Demotes mac newID :=
        fun newID hd' => hd ⟨newID, (shareMAC_demotes_iff mac hn newID).mp hd'⟩
      rw [demoteMACIdentity_eq_self hself]
      refine iff_of_true hnoted fun anchor hl newID hf hne hnm => ?_
      exact absurd ⟨newID, ⟨anchor, hl, hf⟩, hne, hnm⟩ hd
  | readdress a =>
    rw [hc] at hspec
    obtain ⟨hne, -, -, -, hane, anchor, hla, -⟩ := hspec
    have hmerge := merge_exists_iff (m.noteMAC nodeID mac node) node.hostname hane
    generalize hmerged : (m.noteMAC nodeID mac node).mergeNodeInto nodeID a node.hostname = merged
      at hmerge
    have hmnames : (merged.setAnchor nodeID mac).hostnameToNodeID = m.hostnameToNodeID := by
      rw [← hmerged]
      exact hnames
    -- after the merge every id that was a node is one still, except the old anchor
    have hlive : ∀ k, (∃ n, merged.nodes.lookup k = some n)
        ↔ k ≠ a ∧ ∃ n, m.nodes.lookup k = some n := by
      intro k
      rw [hmerge, hkept.exists_iff]
      refine and_congr_right fun _ => or_iff_left_of_imp ?_
      rintro ⟨rfl, -⟩
      exact ⟨node, hn⟩
    unfold KeepsCaseNames
    dsimp only
    rw [hmerged]
    by_cases hp : merged.Promotes nodeID mac
    · rw [if_pos hp, promote_names_iff (m := merged.setAnchor nodeID mac) hp, hmnames, named_iff,
        named_iff]
      constructor
      · intro hall
        constructor
        · intro name hl
          rcases hall name nodeID hl with hr | ⟨he, -⟩ | ⟨hno, -⟩
          · exact Or.inr hr
          · exact Or.inl he
          · exact absurd rfl hno
        · intro name hl
          rcases hall name a hl with hr | ⟨-, he⟩ | ⟨-, hex | he⟩
          · exact Or.inr hr
          · exact absurd he hane
          · exact absurd rfl ((hlive a).mp hex).1
          · exact Or.inl he
      · rintro ⟨hself, hold⟩ name id hl
        by_cases hid : id = nodeID
        · subst hid
          rcases hself name hl with he | hr
          · exact Or.inr (Or.inl ⟨he, rfl⟩)
          · exact Or.inl hr
        · by_cases hida : id = a
          · subst hida
            rcases hold name hl with he | hr
            · exact Or.inr (Or.inr ⟨hid, Or.inr he⟩)
            · exact Or.inl hr
          · exact Or.inr (Or.inr ⟨hid, Or.inl ((hlive id).mpr ⟨hida, h name id hl⟩)⟩)
    · rw [if_neg hp, promoteNodeIDToMAC_eq_self (m := merged.setAnchor nodeID mac) hp, named_iff]
      constructor
      · intro h' name hl
        exact ((hlive a).mp (h' name a (hmnames ▸ hl))).1 rfl
      · intro hk name id hl
        have hl : m.hostnameToNodeID.lookup name = some id := hmnames ▸ hl
        refine (hlive id).mpr ⟨?_, h name id hl⟩
        rintro rfl
        exact hk name hl

theorem recordEndpointMAC_names_iff (h : NamesLive m) :
    NamesLive (m.recordEndpointMAC ip mac now) ↔ m.KeepsEndpointMACNames ip mac now := by
  unfold recordEndpointMAC KeepsEndpointMACNames
  by_cases hmac : mac = ""
  · rw [if_pos hmac]
    exact iff_of_true h fun hne => absurd hmac hne
  · rw [if_neg hmac]
    cases hid : m.ipToNodeID.lookup ip with
    | none => exact iff_of_true h fun _ id he => by cases he
    | some id =>
      have hrecord : NamesLive (m.recordMACLocked id mac now) ↔ m.KeepsMACNames id mac now := by
        cases hn : m.nodes.lookup id with
        | none =>
          rw [recordMACLocked_eq, hn]
          exact iff_of_true h fun node hl => by rw [hn] at hl; cases hl
        | some node => exact recordMAC_names_iff hn h
      dsimp only
      rw [hrecord]
      constructor
      · intro hk _ id' he
        cases he
        exact hk
      · intro hk
        exact hk hmac id rfl

/-! ## One call -/

/-- No name is left behind by any of the four steps that may re-key a node. -/
def IngestCall.KeepsNames (m : Manager) (c : IngestCall) : Prop :=
  { m with dirty := true }.KeepsEndpointNames c.pkt.srcIP c.srcHostname
    ∧ (c.afterSrc m).KeepsEndpointNames c.pkt.dstIP c.dstHostname
    ∧ (c.afterEndpoints m).KeepsEndpointMACNames c.pkt.srcIP c.pkt.srcMAC c.clock.srcMAC
    ∧ (c.afterSrcMAC m).KeepsEndpointMACNames c.pkt.dstIP c.pkt.dstMAC c.clock.dstMAC

instance (m : Manager) (c : IngestCall) : Decidable (c.KeepsNames m) := by
  unfold IngestCall.KeepsNames; infer_instance

omit [RuneCase] in
/-- Steps that re-key nothing and write no name. -/
theorem NamesLive.nodesKept {m' : Manager} (hk : NodesKept m m')
    (hn : m'.hostnameToNodeID = m.hostnameToNodeID) (h : NamesLive m) : NamesLive m' :=
  fun name id hl => (hk.exists_iff id).mpr (h name id (hn ▸ hl))

theorem IngestCall.namesLive (c : IngestCall) (hc : c.KeepsNames m) (h : NamesLive m) :
    NamesLive (c.apply m) := by
  obtain ⟨hsrc, hdst, hsm, hdm⟩ := hc
  have h0 : NamesLive { m with dirty := true } := h
  have h1 : NamesLive (c.afterSrc m) := (addOrUpdateNode_names_iff c.pkt.length h0).mpr hsrc
  have h2 : NamesLive (c.afterEndpoints m) := (addOrUpdateNode_names_iff c.pkt.length h1).mpr hdst
  have h3 : NamesLive (c.afterSrcMAC m) := (recordEndpointMAC_names_iff h2).mpr hsm
  have h4 : NamesLive (c.afterMACs m) := (recordEndpointMAC_names_iff h3).mpr hdm
  refine h4.nodesKept (apply_nodesKept m c) ?_
  rw [IngestCall.apply_eq, stampDeviceInfo_names, addPortObservation_names]
  exact addOrUpdateEdge_names ..

end Names

/-! ## Decay -/

section Decay

variable {m : Manager}

/-- The names a removed node takes along. -/
def Forgets (node : Node) (h : String) : Prop :=
  h = node.ip ∨ (node.hostname ≠ "" ∧ node.hostname ≠ node.ip ∧ h = node.hostname)

instance (node : Node) (h : String) : Decidable (Forgets node h) := by
  unfold Forgets; infer_instance

theorem removeNode_hostnames (m : Manager) (node : Node) (h : String) :
    (m.removeNode node).hostnameToNodeID.lookup h
      = if Forgets node h then none else m.hostnameToNodeID.lookup h := by
  unfold Manager.removeNode
  dsimp only
  rw [KeyedMap.lookup_erase_eq]
  by_cases hip : h = node.ip
  · rw [if_pos hip, if_pos (show Forgets node h from Or.inl hip)]
  · rw [if_neg hip]
    by_cases hname : node.hostname ≠ "" ∧ node.hostname ≠ node.ip
    · rw [if_pos hname, KeyedMap.lookup_erase_eq]
      by_cases hh : h = node.hostname
      · rw [if_pos hh, if_pos (show Forgets node h from Or.inr ⟨hname.1, hname.2, hh⟩)]
      · rw [if_neg hh, if_neg fun hf : Forgets node h => hf.elim hip fun hf => hh hf.2.2]
    · rw [if_neg hname,
        if_neg fun hf : Forgets node h => hf.elim hip fun hf => hname ⟨hf.1, hf.2.1⟩]

/-- A sweep drops the ids of the swept nodes and the names they take along. -/
theorem sweep_lookups (stale : List Node) (m : Manager) :
    (∀ k, (stale.foldl removeNode m).nodes.lookup k
        = if k ∈ stale.map Node.ip then none else m.nodes.lookup k)
      ∧ ∀ h, (stale.foldl removeNode m).hostnameToNodeID.lookup h
        = if ∃ node ∈ stale, Forgets node h then none else m.hostnameToNodeID.lookup h := by
  induction stale generalizing m with
  | nil => exact ⟨fun k => rfl, fun h => (if_neg (by simp)).symm⟩
  | cons node stale ih =>
    obtain ⟨hnodes, hnames⟩ := ih (m.removeNode node)
    constructor
    · intro k
      rw [List.foldl_cons, hnodes, show (m.removeNode node).nodes = m.nodes.erase node.ip from rfl,
        KeyedMap.lookup_erase_eq]
      by_cases hk : k = node.ip <;> by_cases hks : k ∈ stale.map Node.ip <;> simp [hk, hks]
    · intro h
      rw [List.foldl_cons, hnames, removeNode_hostnames]
      by_cases hf : Forgets node h <;> by_cases hfs : ∃ node ∈ stale, Forgets node h
      all_goals simp [hf, hfs]

namespace Manager

/-- Every name of a swept node is one that some swept node takes along. -/
def KeepsSweptNames (m : Manager) (threshold now : Int) : Prop :=
  let stale := staleValues Node.ip Node.lastSeen maxNodeRemovalsPerSweep threshold now m.nodes
  ∀ node ∈ stale, Named m node.ip fun h => ∃ other ∈ stale, Forgets other h

instance (m : Manager) (threshold now : Int) : Decidable (m.KeepsSweptNames threshold now) := by
  unfold KeepsSweptNames; infer_instance

end Manager

/-- **A sweep keeps every name alive exactly when it strands none.** -/
theorem removeStaleNodes_names_iff (threshold now : Int) (h : NamesLive m) :
    NamesLive (m.removeStaleNodes threshold now).1 ↔ m.KeepsSweptNames threshold now := by
  unfold Manager.removeStaleNodes KeepsSweptNames
  dsimp only
  generalize staleValues Node.ip Node.lastSeen maxNodeRemovalsPerSweep threshold now m.nodes = stale
  have hsweep : ∀ m' : Manager, m'.nodes = m.nodes → m'.hostnameToNodeID = m.hostnameToNodeID →
      (NamesLive (stale.foldl removeNode m')
        ↔ ∀ node ∈ stale, Named m node.ip fun h => ∃ other ∈ stale, Forgets other h) := by
    intro m' hn hh
    obtain ⟨hnodes, hnames⟩ := sweep_lookups stale m'
    rw [hn] at hnodes
    rw [hh] at hnames
    constructor
    · intro h' node hnode
      rw [named_iff]
      intro name hl
      by_contra hkept
      obtain ⟨n, hgone⟩ := h' name node.ip (by rw [hnames, if_neg hkept]; exact hl)
      rw [hnodes, if_pos (List.mem_map_of_mem hnode)] at hgone
      cases hgone
    · intro hk name id hl
      rw [hnames] at hl
      split at hl
      · cases hl
      · rename_i hkept
        obtain ⟨n, hid⟩ := h name id hl
        refine ⟨n, ?_⟩
        rw [hnodes, if_neg, hid]
        intro hmem
        obtain ⟨node, hnode, rfl⟩ := List.mem_map.mp hmem
        exact hkept (named_iff.mp (hk node hnode) name hl)
  split
  · exact hsweep { m with dirty := true } rfl rfl
  · exact hsweep m rfl rfl

end Decay

/-! ## Runs -/

/-- Everything but the reload of a cache and the reset. -/
def Op.Incremental : Op → Prop
  | .bulkLoad .. => False
  | .clear => False
  | _ => True

section Runs

variable [RuneCase] {m : Manager}

/-- The call strands no name. -/
def Op.KeepsNames (m : Manager) : Op → Prop
  | .addOrUpdateNode ip hostname _ _ => m.KeepsEndpointNames ip hostname
  | .ingest pkt srcHostname dstHostname clock =>
      IngestCall.KeepsNames m ⟨pkt, srcHostname, dstHostname, clock⟩
  | .removeStaleNodes threshold now => m.KeepsSweptNames threshold now
  | _ => True

instance (m : Manager) : (op : Op) → Decidable (op.KeepsNames m)
  | .addOrUpdateNode ip hostname _ _ => inferInstanceAs (Decidable (m.KeepsEndpointNames ip hostname))
  | .ingest pkt srcHostname dstHostname clock =>
      inferInstanceAs (Decidable (IngestCall.KeepsNames m ⟨pkt, srcHostname, dstHostname, clock⟩))
  | .removeStaleNodes threshold now => inferInstanceAs (Decidable (m.KeepsSweptNames threshold now))
  | .addOrUpdateEdge .. | .removeStaleEdges .. | .clear | .bulkLoad .. =>
      inferInstanceAs (Decidable True)

theorem anchorsLive_step {op : Op} (h : AnchorsLive m) (hop : op.Incremental) :
    AnchorsLive (op.apply m) := by
  cases op with
  | addOrUpdateNode ip hostname bytes now => exact h.addOrUpdateNode
  | addOrUpdateEdge srcIP dstIP protocol bytes now => exact h.addOrUpdateEdge ..
  | ingest pkt srcHostname dstHostname clock =>
    exact AnchorsLive.ingest ⟨pkt, srcHostname, dstHostname, clock⟩ h
  | removeStaleNodes threshold now =>
    exact removeStaleNodes_rule threshold now (fun m hm => ⟨hm.keyed, hm.anchored⟩)
      (fun _ _ hm hl => hm.removeNode hl) h.keyed h
  | removeStaleEdges threshold now =>
    obtain ⟨-, hn, ha, -⟩ := removeStaleEdges_kept m threshold now
    refine h.related ?_ fun mac id hl => Or.inl (ha ▸ hl)
    show KeyedMap.Related MACsKept m.nodes (m.removeStaleEdges threshold now).1.nodes
    rw [hn]
    exact KeyedMap.related_refl MACsKept.refl _
  | bulkLoad reg nodes edges clock => exact hop.elim
  | clear => exact hop.elim

theorem namesLive_step {op : Op} (h : NamesLive m) (hop : op.Incremental)
    (hc : op.KeepsNames m) : NamesLive (op.apply m) := by
  cases op with
  | addOrUpdateNode ip hostname bytes now => exact (addOrUpdateNode_names_iff bytes h).mpr hc
  | addOrUpdateEdge srcIP dstIP protocol bytes now =>
    exact h.nodesKept (addOrUpdateEdgeLocked_nodesKept ..) (addOrUpdateEdge_names ..)
  | ingest pkt srcHostname dstHostname clock =>
    exact IngestCall.namesLive ⟨pkt, srcHostname, dstHostname, clock⟩ hc h
  | removeStaleNodes threshold now => exact (removeStaleNodes_names_iff threshold now h).mpr hc
  | removeStaleEdges threshold now =>
    obtain ⟨-, hn, -, hh⟩ := removeStaleEdges_kept m threshold now
    intro name id hl
    show ∃ n, (m.removeStaleEdges threshold now).1.nodes.lookup id = some n
    rw [hn]
    exact h name id (hh ▸ hl)
  | bulkLoad reg nodes edges clock => exact hop.elim
  | clear => exact hop.elim

/--
**Every anchored MAC leads to a node**, and every name does in a run that strands
none.
-/
theorem lookupsLive_run (ops : List Op) (hops : ∀ op ∈ ops, op.Incremental) :
    (∀ mac id, (runOps ops).macToNodeID.lookup mac = some id →
        ∃ n, (runOps ops).nodes.lookup id = some n)
      ∧ (Run.Guarded Op.apply Op.KeepsNames newManager ops → NamesLive (runOps ops)) := by
  have hincr : Run.Guarded Op.apply (fun _ op => op.Incremental) newManager ops :=
    Run.guarded_of_forall newManager hops
  constructor
  · have hinit : AnchorsLive newManager := ⟨fun k n hl => (by cases hl), fun mac id hl => (by cases hl)⟩
    have hlive : AnchorsLive (runOps ops) :=
      Run.invariant hinit (fun m op h hop => anchorsLive_step h hop) hincr
    intro mac id hl
    obtain ⟨n, hn, -⟩ := hlive.anchored mac id hl
    exact ⟨n, hn⟩
  · intro hc
    have hinit : NamesLive newManager := fun name id hl => by cases hl
    exact Run.invariant hinit (fun m op h hok => namesLive_step h hok.1 hok.2)
      (Run.Guarded.and hincr hc)

end Runs

/-- A host seen first by address, then with a name, then re-keyed to its MAC. -/
def namedHostRun : List Op :=
  [.addOrUpdateNode "10.0.0.5" "" 60 0,
   .ingest { srcIP := "10.0.0.5", dstIP := "10.0.0.6", srcMAC := "aa:bb:cc:00:11:22", length := 60 }
    "nas" "" {},
   .removeStaleNodes 3600 10]

theorem lookupsLive_run_namedHost : NamesLive (runOps namedHostRun)
    ∧ (runOps namedHostRun).hostnameToNodeID.lookup "10.0.0.5" = some "aa:bb:cc:00:11:22" :=
  ⟨(lookupsLive_run namedHostRun (by simp [namedHostRun, Op.Incremental])).2 (by decide), by decide⟩

/-- A named host whose name is missing from the next packet. -/
def droppedNameRun : List Op :=
  [.addOrUpdateNode "10.0.0.5" "nas" 60 0,
   .addOrUpdateNode "10.0.0.5" "" 60 1]

/-- The node moves back to its address and the name stays at the id that is gone. -/
theorem lookupsLive_droppedName : ¬ ∀ ops : List Op, (∀ op ∈ ops, op.Incremental) →
    (∀ mac id, (runOps ops).macToNodeID.lookup mac = some id →
        ∃ n, (runOps ops).nodes.lookup id = some n)
      ∧ NamesLive (runOps ops) := by
  intro h
  obtain ⟨n, hn⟩ := (h droppedNameRun (by simp [droppedNameRun, Op.Incremental])).2 "nas" "nas"
    (by decide)
  have hgone : (runOps droppedNameRun).nodes.lookup "nas" = none := by decide
  rw [hgone] at hn
  cases hn

end Etherchimp
