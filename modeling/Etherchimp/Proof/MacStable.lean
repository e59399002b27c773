import Etherchimp.Proof.Ledger

/-!
# When a MAC identity is stable

An address is `Anchored` at a MAC when it resolves to the node keyed by that MAC,
and the MAC is the node's own and exclusive. Merges are the only thing that moves
an address, and a merge moves the node only when the node is what is merged away.
That happens in two places: `addOrUpdateNodeLocked` picks an id by hostname or bare
address whatever the node's identity is, and `recordMACLocked` merges a quiet
anchor into the node that shows up with its MAC. `recordMACLocked` is also what
puts the identity back, when the frame carries the MAC of the node that moved.

`KeepsIdentity` says, part by part of one `Ingest`, that the node is not moved or
is put back.
-/

namespace Etherchimp

open Manager

/-- `ip` resolves to a node keyed by its exclusive host MAC. -/
structure Anchored (m : Manager) (ip mac : String) : Prop where
  host : isHostMAC mac
  resolves : m.ipToNodeID.lookup ip = some mac
  anchor : m.macToNodeID.lookup mac = some mac
  exclusive : m.isShared mac = false
  present : ∃ n, m.nodes.lookup mac = some n

namespace Manager

variable (m : Manager)

/-- Counting the endpoint `x` gives the node of `mac` another id. -/
def RekeysAway (x hostname mac : String) : Prop :=
  m.ipToNodeID.lookup x = some mac ∧ m.nodeIDFor x (nodeHostname x hostname) ≠ mac

/-- The node's id may become a MAC: it is no MAC yet and no group. -/
def Promotable (id : String) : Prop :=
  id ≠ "" ∧ ¬ isHostMAC id ∧ ∃ n, m.nodes.lookup id = some n ∧ n.isGroup = false

/-- Recording `mac'` for `x` does not merge the node of `mac` away, or `mac'` puts it back. -/
def KeepsAnchor (x mac' mac : String) (now : Int) : Prop :=
  mac' ≠ "" → ∀ id, m.ipToNodeID.lookup x = some id → m.macCase id mac' now = .readdress mac →
    mac' = mac ∧ m.Promotable id

/-- Recording `mac'` for `x` gives the node that `ip` is on, anchored by `mac`, its id back. -/
def Restores (x mac' ip mac : String) : Prop :=
  mac' = mac ∧ ∃ id, m.ipToNodeID.lookup x = some id ∧ m.ipToNodeID.lookup ip = some id
    ∧ m.macToNodeID.lookup mac = some id ∧ m.Promotable id

instance (x hostname mac : String) : Decidable (m.RekeysAway x hostname mac) :=
  inferInstanceAs (Decidable (_ ∧ _))

instance (id : String) : Decidable (m.Promotable id) := by unfold Promotable; infer_instance

instance (x mac' mac : String) (now : Int) : Decidable (m.KeepsAnchor x mac' mac now) := by
  unfold KeepsAnchor; infer_instance

instance (x mac' ip mac : String) : Decidable (m.Restores x mac' ip mac) := by
  unfold Restores; infer_instance

end Manager

variable {m m' : Manager} {ip mac : String}

/-- Only the node, the lookups and the shared table matter. -/
theorem Anchored.kept (hk : NodesKept m m')
    (hmac : m'.macToNodeID.lookup mac = m.macToNodeID.lookup mac)
    (hshared : m'.macShared = m.macShared) (h : Anchored m ip mac) : Anchored m' ip mac where
  host := h.host
  resolves := by rw [hk.ipTo]; exact h.resolves
  anchor := by rw [hmac]; exact h.anchor
  exclusive := by
    have := h.exclusive
    unfold isShared at this ⊢
    rwa [hshared]
  present := by
    obtain ⟨n, hn⟩ := h.present
    obtain ⟨n', hn', -⟩ := hk.lookup' hn
    exact ⟨n', hn'⟩

section Steps

variable [RuneCase] {newID oldID hostname nodeID mac' x : String} {bytes : Nat} {now : Int}

/-- A merge of some other node moves nothing. -/
theorem Anchored.merge (hne : oldID ≠ newID) (hold : oldID ≠ mac) (h : Anchored m ip mac) :
    Anchored (m.mergeNodeInto newID oldID hostname) ip mac where
  host := h.host
  resolves := by
    rw [mergeNodeInto_ipToNodeID, h.resolves]
    exact congrArg some (if_neg hold.symm)
  anchor := by
    rw [mergeNodeInto_macToNodeID, h.anchor]
    exact congrArg some (if_neg hold.symm)
  exclusive := h.exclusive
  present := by
    obtain ⟨n, hn⟩ := h.present
    rw [mergeNodeInto_nodes hne, if_neg hold.symm]
    split
    · rename_i hnew
      rw [← Option.ne_none_iff_exists']
      intro hnone
      rw [mergedNode_eq_none, ← hnew, hn] at hnone
      cases hnone.1
    · exact ⟨n, hn⟩

/-! ## Counting an endpoint -/

theorem Anchored.addOrUpdateNode (hkeep : ¬ m.RekeysAway x hostname mac)
    (h : Anchored m ip mac) : Anchored (m.addOrUpdateNodeLocked x hostname bytes now) ip mac := by
  unfold addOrUpdateNodeLocked
  dsimp only
  unfold RekeysAway at hkeep
  generalize nodeHostname x hostname = name at hkeep ⊢
  generalize m.nodeIDFor x name = id at hkeep ⊢
  have hsame : m.ipToNodeID.lookup x = some mac → id = mac := by
    intro hx
    by_contra hne
    exact hkeep ⟨hx, hne⟩
  have hclaim : Anchored ({ m with dirty := true }.claimHostname x name) ip mac := by
    refine h.kept (claimHostname_kept m x name).toNodesKept ?_ ?_
    · unfold claimHostname; split <;> rfl
    · unfold claimHostname; split <;> rfl
  have hprev : Anchored (m.mergePrevious x name id) ip mac := by
    unfold mergePrevious
    dsimp only
    split
    · rename_i hg
      refine hclaim.merge hg.2 ?_
      intro he
      cases hx : m.ipToNodeID.lookup x with
      | none => rw [hx] at hg; exact hg.1 rfl
      | some k =>
        rw [hx, Option.getD_some] at he hg
        exact hg.2 (he.trans (hsame (hx.trans (congrArg some he))).symm)
    · exact hclaim
  have hself : ip = x → id = mac := fun hx => hsame (hx ▸ h.resolves)
  obtain ⟨node, hnodes, -⟩ := countEndpoint_nodes (m.mergePrevious x name id) id x name bytes now
  refine ⟨h.host, ?_, ?_, ?_, ?_⟩
  · rw [countEndpoint_ipToNodeID, KeyedMap.lookup_insert_eq]
    split
    · rename_i hx; rw [hself hx]
    · exact hprev.resolves
  · have : ((m.mergePrevious x name id).countEndpoint id x name bytes now).macToNodeID
        = (m.mergePrevious x name id).macToNodeID := by
      unfold countEndpoint; dsimp only; split <;> rfl
    rw [this]
    exact hprev.anchor
  · have : ((m.mergePrevious x name id).countEndpoint id x name bytes now).macShared
        = (m.mergePrevious x name id).macShared := by
      unfold countEndpoint; dsimp only; split <;> rfl
    unfold isShared
    rw [this]
    exact hprev.exclusive
  · rw [hnodes, KeyedMap.lookup_insert_eq]
    split
    · exact ⟨node, rfl⟩
    · exact hprev.present

/-! ## Recording a MAC -/

theorem Anchored.promote (h : Anchored m ip mac) :
    Anchored (m.promoteNodeIDToMAC nodeID mac') ip mac := by
  rcases promoteNodeIDToMAC_cases m nodeID mac' with ⟨he, _⟩ | ⟨hp, hostname, hk, hshared, hmac⟩
  · rw [he]; exact h
  · obtain ⟨-, hne, -, -, hid, -⟩ := hp
    have hold : nodeID ≠ mac := fun he => hid (he ▸ h.host)
    have hm : Anchored (m.mergeNodeInto mac' nodeID hostname) ip mac := h.merge hne hold
    refine hm.kept hk.toNodesKept ?_ hshared
    rw [hmac, KeyedMap.lookup_insert_eq, hm.anchor]
    split
    · rename_i he; rw [he]
    · rfl

/-- A node that may take the MAC as its id brings the address along. -/
theorem anchored_of_promotes (hp : m.Promotes nodeID mac)
    (hip : m.ipToNodeID.lookup ip = some nodeID) :
    Anchored (m.promoteNodeIDToMAC nodeID mac) ip mac := by
  rcases promoteNodeIDToMAC_cases m nodeID mac with ⟨_, hn⟩ | ⟨-, hostname, hk, hshared, hmac⟩
  · exact absurd hp hn
  · obtain ⟨-, hne, hex, hhost, -, node, hl, -⟩ := hp
    have hlookup : (m.mergeNodeInto mac nodeID hostname).ipToNodeID.lookup ip = some mac := by
      rw [mergeNodeInto_ipToNodeID, hip]
      exact congrArg some (if_pos rfl)
    have hpresent : ∃ n, (m.mergeNodeInto mac nodeID hostname).nodes.lookup mac = some n := by
      rw [mergeNodeInto_nodes hne, if_neg hne.symm, if_pos rfl, ← Option.ne_none_iff_exists']
      intro hnone
      rw [mergedNode_eq_none, hl] at hnone
      cases hnone.2
    obtain ⟨n, hn⟩ := hpresent
    obtain ⟨n', hn', -⟩ := hk.toNodesKept.lookup' hn
    refine ⟨hhost, ?_, ?_, ?_, ⟨n', hn'⟩⟩
    · rw [hk.ipTo]; exact hlookup
    · rw [hmac]; exact AList.lookup_insert _
    · unfold isShared at hex ⊢; rw [hshared]; exact hex

theorem Anchored.demote (hne : mac' ≠ mac) (h : Anchored m ip mac) :
    Anchored (m.demoteMACIdentity mac') ip mac := by
  rcases demoteMACIdentity_cases m mac' with he | ⟨node, newID, hostname, -, -, -, hnew, hk, hs, ht⟩
  · rw [he]; exact h
  · have hm : Anchored (m.mergeNodeInto newID mac' hostname) ip mac := h.merge hnew.symm hne
    exact hm.kept hk.toNodesKept (by rw [ht]) hs

theorem Anchored.noteMAC {node : Node} (hl : m.nodes.lookup nodeID = some node)
    (h : Anchored m ip mac) : Anchored (m.noteMAC nodeID mac' node) ip mac := by
  obtain ⟨hshared, hmac, -, -⟩ := noteMAC_tables m nodeID mac' node
  exact h.kept (noteMAC_kept mac' hl).toNodesKept (by rw [hmac]) hshared

omit [RuneCase] in
theorem Anchored.setAnchor (hne : mac' ≠ mac) (h : Anchored m ip mac) :
    Anchored (m.setAnchor nodeID mac') ip mac :=
  h.kept (NodesKept.of_nodes_eq (m := m) rfl rfl) (AList.lookup_insert_ne hne.symm) rfl

omit [RuneCase] in
theorem Anchored.shareMAC (hne : mac' ≠ mac) (h : Anchored m ip mac) :
    Anchored (m.shareMAC mac') ip mac where
  host := h.host
  resolves := h.resolves
  anchor := (AList.lookup_erase_ne hne.symm).trans h.anchor
  exclusive := by
    have := h.exclusive
    unfold isShared Manager.shareMAC at *
    rw [AList.lookup_insert_ne hne.symm]
    exact this
  present := h.present

theorem isShared_promote (m : Manager) (nodeID mac' mac : String) :
    (m.promoteNodeIDToMAC nodeID mac').isShared mac = m.isShared mac := by
  rcases promoteNodeIDToMAC_cases m nodeID mac' with ⟨he, _⟩ | ⟨-, _, -, hshared, -⟩
  · rw [he]
  · unfold isShared; rw [hshared]

theorem isShared_demote (m : Manager) (mac' mac : String) :
    (m.demoteMACIdentity mac').isShared mac = m.isShared mac := by
  rcases demoteMACIdentity_cases m mac' with he | ⟨_, _, _, -, -, -, -, -, hshared, -⟩
  · rw [he]
  · unfold isShared; rw [hshared]

/-- Once shared, always shared. -/
theorem isShared_recordMAC (hs : m.isShared mac = true) :
    (m.recordMACLocked nodeID mac' now).isShared mac = true := by
  rw [recordMACLocked_eq]
  cases hn : m.nodes.lookup nodeID with
  | none => exact hs
  | some node =>
    obtain ⟨hshared, -, -, -⟩ := noteMAC_tables m nodeID mac' node
    have hnoted : (m.noteMAC nodeID mac' node).isShared mac = true := by
      unfold isShared at hs ⊢; rw [hshared]; exact hs
    dsimp only
    cases m.macCase nodeID mac' now with
    | skip => exact hs
    | note => exact hnoted
    | anchor => exact (isShared_promote _ _ _ _).trans hnoted
    | confirm => exact (isShared_promote _ _ _ _).trans hnoted
    | share =>
      refine (isShared_demote _ _ _).trans ?_
      unfold isShared Manager.shareMAC at *
      rw [KeyedMap.lookup_insert_eq]
      split
      · rfl
      · exact hnoted
    | readdress a => exact (isShared_promote _ _ _ _).trans hnoted

/-- Recording a MAC leaves the address anchored, or makes the MAC shared. -/
theorem Anchored.recordMACLocked (h : Anchored m ip mac)
    (hkeep : m.macCase nodeID mac' now = .readdress mac → mac' = mac ∧ m.Promotable nodeID) :
    Anchored (m.recordMACLocked nodeID mac' now) ip mac
      ∨ (m.recordMACLocked nodeID mac' now).isShared mac = true := by
  have hspec := macCase_spec m nodeID mac' now
  rw [recordMACLocked_eq]
  cases hn : m.nodes.lookup nodeID with
  | none => exact Or.inl h
  | some node =>
    have hnoted : Anchored (m.noteMAC nodeID mac' node) ip mac := h.noteMAC hn
    dsimp only
    cases hc : m.macCase nodeID mac' now with
    | skip => exact Or.inl h
    | note => exact Or.inl hnoted
    | confirm => exact Or.inl hnoted.promote
    | anchor =>
      rw [hc] at hspec
      -- the MAC of the node has its anchor, and that node is there
      have hne : mac' ≠ mac := by
        intro he
        obtain ⟨n, hl⟩ := h.present
        have := (hspec.2.2.2 mac (he ▸ h.anchor)).2
        rw [hl] at this; cases this
      exact Or.inl (hnoted.setAnchor hne).promote
    | share =>
      by_cases he : mac' = mac
      · right
        refine (isShared_demote _ _ _).trans ?_
        unfold isShared Manager.shareMAC
        rw [he, AList.lookup_insert]
        rfl
      · exact Or.inl ((hnoted.shareMAC he).demote he)
    | readdress a =>
      rw [hc] at hspec hkeep
      obtain ⟨-, -, -, hanchor, hane, anchor, hal, -⟩ := hspec
      left
      by_cases ha : a = mac
      · -- the host moved to a new address, and its own MAC takes the identity back
        subst ha
        obtain ⟨rfl, hpne, hphost, n, hpl, hgroup⟩ := hkeep rfl
        have hnl : ∃ n', (m.noteMAC nodeID mac' node).nodes.lookup nodeID = some n'
            ∧ n'.isGroup = false := by
          rw [hn, Option.some.injEq] at hpl
          subst hpl
          unfold Manager.noteMAC
          split
          · exact ⟨node, hn, hgroup⟩
          · exact ⟨_, AList.lookup_insert _, hgroup⟩
        obtain ⟨n', hnl, hgroup'⟩ := hnl
        refine anchored_of_promotes ⟨hpne, hane.symm, hnoted.exclusive, h.host, hphost, ?_⟩ ?_
        · show ∃ node', ((m.noteMAC nodeID mac' node).mergeNodeInto nodeID mac'
            node.hostname).nodes.lookup nodeID = some node' ∧ node'.isGroup = false
          rw [mergeNodeInto_nodes hane, if_neg hane.symm, if_pos rfl, hnl]
          cases (m.noteMAC nodeID mac' node).nodes.lookup mac' with
          | none => exact ⟨_, rfl, hgroup'⟩
          | some o => exact ⟨_, rfl, hgroup'⟩
        · show ((m.noteMAC nodeID mac' node).mergeNodeInto nodeID mac'
            node.hostname).ipToNodeID.lookup ip = some nodeID
          rw [mergeNodeInto_ipToNodeID, hnoted.resolves]
          exact congrArg some (if_pos rfl)
      · have hne : mac' ≠ mac := by
          intro he
          rw [he, h.anchor, Option.some.injEq] at hanchor
          exact ha hanchor.symm
        exact ((hnoted.merge hane ha).setAnchor hne).promote

theorem Anchored.recordEndpointMAC (h : Anchored m ip mac) (hkeep : m.KeepsAnchor x mac' mac now) :
    Anchored (m.recordEndpointMAC x mac' now) ip mac
      ∨ (m.recordEndpointMAC x mac' now).isShared mac = true := by
  unfold Manager.recordEndpointMAC
  split
  · exact Or.inl h
  · rename_i hmac
    cases hx : m.ipToNodeID.lookup x with
    | none => exact Or.inl h
    | some id => exact h.recordMACLocked (hkeep hmac id hx)

theorem isShared_recordEndpointMAC (hs : m.isShared mac = true) :
    (m.recordEndpointMAC x mac' now).isShared mac = true := by
  unfold Manager.recordEndpointMAC
  split
  · exact hs
  · split
    · exact hs
    · exact isShared_recordMAC hs

/-- The node's own MAC puts its identity back. -/
theorem anchored_of_restores (hhost : isHostMAC mac) (hr : m.Restores x mac' ip mac) :
    Anchored (m.recordEndpointMAC x mac' now) ip mac
      ∨ (m.recordEndpointMAC x mac' now).isShared mac = true := by
  obtain ⟨rfl, id, hx, hip, hanchor, hne, hid, n, hl, hgroup⟩ := hr
  by_cases hs : m.isShared mac' = true
  · exact Or.inr (isShared_recordEndpointMAC hs)
  left
  have hmac : mac' ≠ "" := by
    intro he
    rw [he] at hhost
    revert hhost
    decide
  have hcase : m.macCase id mac' now = .confirm := by
    unfold macCase
    rw [if_neg (by simp [hne, hhost]), hl]
    dsimp only
    rw [if_neg hs, hanchor]
    exact if_pos rfl
  obtain ⟨hshared, -, -, -⟩ := noteMAC_tables m id mac' n
  unfold Manager.recordEndpointMAC
  rw [if_neg hmac, hx]
  dsimp only
  rw [recordMACLocked_eq, hl]
  dsimp only
  rw [hcase]
  refine anchored_of_promotes ⟨hne, fun he => hid (he ▸ hhost), ?_, hhost, hid, ?_⟩ ?_
  · unfold isShared at hs ⊢
    rw [hshared]
    simpa using hs
  · unfold Manager.noteMAC
    split
    · exact ⟨n, hl, hgroup⟩
    · exact ⟨_, AList.lookup_insert _, hgroup⟩
  · rw [(noteMAC_kept mac' hl).ipTo]
    exact hip

end Steps

/-! ## Runs of `Ingest` -/

section Runs

variable [RuneCase]

/--
The node of `mac` keeps its identity through the call. Either no endpoint that is
counted gives it another id and no MAC that is recorded merges it away, or the
frame carries its MAC for an endpoint on the node, which gets its id back.
-/
def IngestCall.KeepsIdentity (m : Manager) (c : IngestCall) (ip mac : String) : Prop :=
  (c.afterSrcMAC m).Restores c.pkt.dstIP c.pkt.dstMAC ip mac
    ∨ ((c.afterSrcMAC m).KeepsAnchor c.pkt.dstIP c.pkt.dstMAC mac c.clock.dstMAC
      ∧ ((c.afterEndpoints m).Restores c.pkt.srcIP c.pkt.srcMAC ip mac
        ∨ ((c.afterEndpoints m).KeepsAnchor c.pkt.srcIP c.pkt.srcMAC mac c.clock.srcMAC
          ∧ ¬ m.RekeysAway c.pkt.srcIP c.srcHostname mac
          ∧ ¬ (c.afterSrc m).RekeysAway c.pkt.dstIP c.dstHostname mac)))

instance (m : Manager) (c : IngestCall) (ip mac : String) : Decidable (c.KeepsIdentity m ip mac) :=
  inferInstanceAs (Decidable (_ ∨ _))

omit [RuneCase] in
theorem macShared_edge (m : Manager) (srcIP dstIP : String) (protocol : Protocol) (bytes : Nat)
    (now : Int) :
    (m.addOrUpdateEdgeLocked srcIP dstIP protocol bytes now).macShared = m.macShared
      ∧ (m.addOrUpdateEdgeLocked srcIP dstIP protocol bytes now).macToNodeID = m.macToNodeID := by
  unfold addOrUpdateEdgeLocked countOnEdge addPeersLocked
  dsimp only
  repeat' split
  all_goals exact ⟨rfl, rfl⟩

omit [RuneCase] in
theorem macShared_ports (m : Manager) (srcIP dstIP : String) (dstPort : UInt16) :
    (m.addPortObservationLocked srcIP dstIP dstPort).macShared = m.macShared
      ∧ (m.addPortObservationLocked srcIP dstIP dstPort).macToNodeID = m.macToNodeID := ⟨rfl, rfl⟩

omit [RuneCase] in
theorem macShared_stamp (m : Manager) (pkt : PacketInfo) :
    (m.stampDeviceInfoLocked pkt).macShared = m.macShared
      ∧ (m.stampDeviceInfoLocked pkt).macToNodeID = m.macToNodeID := by
  unfold stampDeviceInfoLocked
  repeat' split
  all_goals exact ⟨rfl, rfl⟩

theorem isShared_addOrUpdateNode (m : Manager) (x hostname : String) (bytes : Nat) (now : Int)
    (mac : String) : (m.addOrUpdateNodeLocked x hostname bytes now).isShared mac = m.isShared mac := by
  unfold addOrUpdateNodeLocked countEndpoint mergePrevious claimHostname
  dsimp only
  repeat' split
  all_goals rfl

/-- What comes after the two MACs leaves the MAC tables alone. -/
theorem apply_tables (m : Manager) (c : IngestCall) :
    (c.apply m).macShared = (c.afterMACs m).macShared
      ∧ (c.apply m).macToNodeID = (c.afterMACs m).macToNodeID := by
  have hedge := macShared_edge (c.afterMACs m) c.pkt.srcIP c.pkt.dstIP c.pkt.protocol c.pkt.length
    c.clock.edgeSeen
  rw [IngestCall.apply_eq, (macShared_stamp _ c.pkt).1, (macShared_stamp _ c.pkt).2,
    (macShared_ports _ _ _ _).1, (macShared_ports _ _ _ _).2]
  exact hedge

/-- It moves no address either. -/
theorem apply_nodesKept (m : Manager) (c : IngestCall) : NodesKept (c.afterMACs m) (c.apply m) := by
  have hedge : NodesKept (c.afterMACs m) (c.afterEdge m) := addOrUpdateEdgeLocked_nodesKept ..
  have hports := addPortObservationLocked_kept (c.afterEdge m) c.pkt.srcIP c.pkt.dstIP c.pkt.dstPort
  have hstamp := stampDeviceInfoLocked_kept
    ((c.afterEdge m).addPortObservationLocked c.pkt.srcIP c.pkt.dstIP c.pkt.dstPort) c.pkt
  rw [IngestCall.apply_eq]
  exact (hedge.trans hports.toNodesKept).trans hstamp.toNodesKept

/-- One `Ingest` that keeps the identity, or makes the MAC shared. -/
theorem anchored_step {m : Manager} {c : IngestCall} {ip mac : String} (h : Anchored m ip mac)
    (hkeep : c.KeepsIdentity m ip mac) :
    Anchored (c.apply m) ip mac ∨ (c.apply m).isShared mac = true := by
  have hmacs : Anchored (c.afterMACs m) ip mac ∨ (c.afterMACs m).isShared mac = true := by
    rcases hkeep with hdst | ⟨hdst, hsrc | ⟨hsrc, hnsrc, hndst⟩⟩
    · exact anchored_of_restores h.host hdst
    · rcases anchored_of_restores h.host hsrc with h3 | h3
      · exact Anchored.recordEndpointMAC h3 hdst
      · exact Or.inr (isShared_recordEndpointMAC h3)
    · have h0 : Anchored { m with dirty := true } ip mac :=
        h.kept (NodesKept.of_nodes_eq (m := m) rfl rfl) rfl rfl
      have h1 : Anchored (c.afterSrc m) ip mac := h0.addOrUpdateNode hnsrc
      have h2 : Anchored (c.afterEndpoints m) ip mac := h1.addOrUpdateNode hndst
      rcases h2.recordEndpointMAC hsrc with h3 | h3
      · exact Anchored.recordEndpointMAC h3 hdst
      · exact Or.inr (isShared_recordEndpointMAC h3)
  obtain ⟨hshared, hmac⟩ := apply_tables m c
  rcases hmacs with h4 | h4
  · exact Or.inl (h4.kept (apply_nodesKept m c) (by rw [hmac]) hshared)
  · right
    unfold isShared at h4 ⊢
    rw [hshared]
    exact h4

/-- A MAC that is shared stays shared. -/
theorem isShared_step {m : Manager} {c : IngestCall} {mac : String} (hs : m.isShared mac = true) :
    (c.apply m).isShared mac = true := by
  have h2 : (c.afterEndpoints m).isShared mac = true := by
    unfold IngestCall.afterEndpoints IngestCall.afterSrc
    rw [isShared_addOrUpdateNode, isShared_addOrUpdateNode]
    exact hs
  have h3 : (c.afterSrcMAC m).isShared mac = true := isShared_recordEndpointMAC h2
  have h4 : (c.afterMACs m).isShared mac = true := isShared_recordEndpointMAC h3
  unfold isShared at h4 ⊢
  rw [(apply_tables m c).1]
  exact h4

/--
**A MAC identity is stable in every run that keeps it.** From any reachable state,
the address still resolves to the node of its MAC, unless the MAC became shared.
-/
theorem macStable_run (ops : List Op) (calls : List IngestCall) (ip mac : String)
    (h : Anchored (runOps ops) ip mac)
    (hkeep : Run.Guarded IngestCall.apply
      (fun m c => m.isShared mac = false → c.KeepsIdentity m ip mac) (runOps ops) calls) :
    Anchored (Run.exec IngestCall.apply (runOps ops) calls) ip mac
      ∨ (Run.exec IngestCall.apply (runOps ops) calls).isShared mac = true := by
  refine Run.invariant (P := fun m => Anchored m ip mac ∨ m.isShared mac = true) (Or.inl h) ?_ hkeep
  intro m c hm hok
  rcases hm with hm | hm
  · exact anchored_step hm (hok hm.exclusive)
  · exact Or.inr (isShared_step hm)

end Runs

/-- A host talks with its own MAC on the frames, so the graph keys it by that MAC. -/
def hostRun : List Op :=
  [.ingest { srcIP := "10.0.0.5", dstIP := "8.8.8.8", srcMAC := "aa:bb:cc:00:11:22", length := 60 }
    "" "" {}]

/-- It sends again, and is answered by a frame that carries its MAC. -/
def answeredRun : List IngestCall :=
  [{ pkt := { srcIP := "10.0.0.5", dstIP := "8.8.8.8", srcMAC := "aa:bb:cc:00:11:22", length := 60 } },
   { pkt := { srcIP := "8.8.8.8", dstIP := "10.0.0.5", dstMAC := "aa:bb:cc:00:11:22", length := 60 },
     srcHostname := "dns.google" }]

theorem anchored_hostRun : Anchored (runOps hostRun) "10.0.0.5" "aa:bb:cc:00:11:22" :=
  ⟨by decide, by decide, by decide, by decide, Option.isSome_iff_exists.mp (by decide)⟩

theorem macStable_run_answered :
    Anchored (Run.exec IngestCall.apply (runOps hostRun) answeredRun) "10.0.0.5"
        "aa:bb:cc:00:11:22"
      ∨ (Run.exec IngestCall.apply (runOps hostRun) answeredRun).isShared "aa:bb:cc:00:11:22"
          = true :=
  macStable_run hostRun answeredRun "10.0.0.5" "aa:bb:cc:00:11:22" anchored_hostRun (by decide)

/-- An ARP request for the host: its address is only the target, and the frame is a broadcast. -/
def arpRequest : IngestCall where
  pkt := { srcIP := "10.0.0.1", dstIP := "10.0.0.5", srcMAC := "02:00:00:00:00:01",
           dstMAC := "ff:ff:ff:ff:ff:ff", length := 42 }

/-- The request re-keys the host to its bare address and leaves it there. -/
theorem macStable_arpRequest :
    ¬ ∀ (ops : List Op) (c : IngestCall) (ip mac : String) (n : Node),
        Anchored (runOps ops) ip mac → (runOps ops).nodes.lookup mac = some n → n.isGroup = false →
        (c.apply (runOps ops)).ipToNodeID.lookup ip = some mac
          ∨ (c.apply (runOps ops)).isShared mac = true := by
  intro h
  have hpresent : ((runOps hostRun).nodes.lookup "aa:bb:cc:00:11:22").map Node.isGroup
      = some false := by
    decide
  obtain ⟨n, hn, hgroup⟩ := Option.map_eq_some_iff.mp hpresent
  have := h hostRun arpRequest "10.0.0.5" "aa:bb:cc:00:11:22" n anchored_hostRun hn hgroup
  revert this
  decide

end Etherchimp
