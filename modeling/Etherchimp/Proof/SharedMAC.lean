import Etherchimp.Proof.MacStable
import Etherchimp.Proof.NodeIDs

/-!
# A shared MAC is no identity

Once a MAC is shared it is never an anchor again: `recordMACLocked` turns away
before it writes one. Whether it stays a node id is another matter. The node that
had been re-keyed to it is demoted only when it has another host address, and an
endpoint may be filed under the MAC later, by its address or by a name that still
leads there.

`Withdraws` and `Admits` say that neither happens, and each is exact for its call.
-/

namespace Etherchimp

open Manager

/-- No shared MAC is an anchor. -/
def AnchorsApart (m : Manager) : Prop :=
  ∀ mac, m.isShared mac = true → m.macToNodeID.lookup mac = none

/-- No shared MAC is a node id. -/
def KeysApart (m : Manager) : Prop :=
  ∀ mac, m.isShared mac = true → ¬ ∃ n, m.nodes.lookup mac = some n

namespace Manager

/-- The endpoint is filed under an id that is no shared MAC. -/
def Admits (m : Manager) (ip hostname : String) : Prop :=
  m.isShared (m.nodeIDFor ip (nodeHostname ip hostname)) = false

/-- If the MAC becomes shared, its node can be demoted, to an address that is no shared MAC. -/
def Withdraws (m : Manager) (nodeID mac : String) (now : Int) : Prop :=
  m.macCase nodeID mac now = .share → ∀ node, m.nodes.lookup mac = some node →
    ∃ newID, firstHostIP node.ips = some newID ∧ newID ≠ "" ∧ newID ≠ mac
      ∧ m.isShared newID = false

/-- The same for the MAC of an endpoint. -/
def WithdrawsEndpoint (m : Manager) (ip mac : String) (now : Int) : Prop :=
  mac ≠ "" → ∀ id, m.ipToNodeID.lookup ip = some id → m.Withdraws id mac now

instance (m : Manager) (ip hostname : String) : Decidable (m.Admits ip hostname) :=
  inferInstanceAs (Decidable (_ = _))

instance (m : Manager) (nodeID mac : String) (now : Int) : Decidable (m.Withdraws nodeID mac now) := by
  unfold Withdraws; infer_instance

instance (m : Manager) (ip mac : String) (now : Int) : Decidable (m.WithdrawsEndpoint ip mac now) := by
  unfold WithdrawsEndpoint; infer_instance

end Manager

section Calls

variable [RuneCase] {m m' : Manager} {nodeID mac ip hostname : String} {now : Int}

/-- Every endpoint is admitted, and every MAC that becomes shared is withdrawn. -/
def IngestCall.KeepsApart (m : Manager) (c : IngestCall) : Prop :=
  { m with dirty := true }.Admits c.pkt.srcIP c.srcHostname
    ∧ (c.afterSrc m).Admits c.pkt.dstIP c.dstHostname
    ∧ (c.afterEndpoints m).WithdrawsEndpoint c.pkt.srcIP c.pkt.srcMAC c.clock.srcMAC
    ∧ (c.afterSrcMAC m).WithdrawsEndpoint c.pkt.dstIP c.pkt.dstMAC c.clock.dstMAC

instance (m : Manager) (c : IngestCall) : Decidable (c.KeepsApart m) := by
  unfold IngestCall.KeepsApart; infer_instance

omit [RuneCase] in
theorem KeysApart.of_nodes (hn : ∀ k, (∃ n, m'.nodes.lookup k = some n) → ∃ n, m.nodes.lookup k = some n)
    (hs : ∀ mac, m'.isShared mac = m.isShared mac) (h : KeysApart m) : KeysApart m' :=
  fun mac hm hl => h mac (hs mac ▸ hm) (hn mac hl)

/-! ## Counting an endpoint -/

theorem addOrUpdateNode_anchors (m : Manager) (ip hostname : String) (bytes : Nat) (now : Int)
    (mac : String) : (m.addOrUpdateNodeLocked ip hostname bytes now).macToNodeID.lookup mac = none
      ↔ m.macToNodeID.lookup mac = none := by
  unfold addOrUpdateNodeLocked
  dsimp only
  generalize nodeHostname ip hostname = name
  generalize m.nodeIDFor ip name = nodeID
  have hcount : ∀ m : Manager, (m.countEndpoint nodeID ip name bytes now).macToNodeID
      = m.macToNodeID := by
    intro m
    unfold countEndpoint
    dsimp only
    split <;> rfl
  have hclaim : ({ m with dirty := true }.claimHostname ip name).macToNodeID = m.macToNodeID := by
    unfold claimHostname
    split <;> rfl
  rw [hcount]
  unfold mergePrevious
  dsimp only
  split
  · rw [mergeNodeInto_macToNodeID, hclaim, Option.map_eq_none_iff]
  · rw [hclaim]

/-- **An endpoint keeps shared MACs off the node ids exactly when it is admitted.** -/
theorem addOrUpdateNode_keysApart_iff (bytes : Nat) (h : KeysApart m) :
    KeysApart (m.addOrUpdateNodeLocked ip hostname bytes now) ↔ m.Admits ip hostname := by
  have hexists := addOrUpdateNode_exists_iff m ip hostname bytes now
  unfold Admits
  constructor
  · intro h'
    rw [← Bool.not_eq_true]
    intro hs
    refine h' _ ?_ ((hexists _).mpr (Or.inl rfl))
    rw [isShared_addOrUpdateNode]
    exact hs
  · intro ha mac hs hl
    rw [isShared_addOrUpdateNode] at hs
    rcases (hexists mac).mp hl with rfl | ⟨hold, -⟩
    · rw [ha] at hs
      cases hs
    · exact h mac hs hold

/-! ## Recording a MAC -/

theorem promote_anchors (hs : m.isShared mac = false) (h : AnchorsApart m) :
    AnchorsApart (m.promoteNodeIDToMAC nodeID mac) := by
  by_cases hp : m.Promotes nodeID mac
  · intro mac' hs'
    rw [isShared_promote] at hs'
    have hne : mac' ≠ mac := by
      rintro rfl
      rw [hs] at hs'
      cases hs'
    obtain ⟨-, -, -, -, -, node, hl, -⟩ := id hp
    rw [promoteNodeIDToMAC_eq hp hl]
    dsimp only
    rw [AList.lookup_insert_ne hne, mergeNodeInto_macToNodeID, h mac' hs']
    rfl
  · rw [promoteNodeIDToMAC_eq_self hp]
    exact h

theorem promote_keysApart (h : KeysApart m) : KeysApart (m.promoteNodeIDToMAC nodeID mac) := by
  by_cases hp : m.Promotes nodeID mac
  · intro mac' hs' hl
    rw [isShared_promote] at hs'
    rcases ((promote_exists_iff hp mac').mp hl).2 with hold | rfl
    · exact h mac' hs' hold
    · rw [hp.2.2.1] at hs'
      cases hs'
  · rw [promoteNodeIDToMAC_eq_self hp]
    exact h

theorem demote_anchors (h : AnchorsApart m) : AnchorsApart (m.demoteMACIdentity mac) := by
  by_cases hd : ∃ newID, m.Demotes mac newID
  · obtain ⟨newID, hd⟩ := hd
    intro mac' hs'
    rw [isShared_demote] at hs'
    obtain ⟨hostname, he⟩ := demoteMACIdentity_eq hd
    rw [he]
    dsimp only
    rw [mergeNodeInto_macToNodeID, h mac' hs']
    rfl
  · rw [demoteMACIdentity_eq_self fun newID hd' => hd ⟨newID, hd'⟩]
    exact h

omit [RuneCase] in
theorem isShared_setAnchor (m : Manager) (id mac mac' : String) :
    (m.setAnchor id mac).isShared mac' = m.isShared mac' := rfl

omit [RuneCase] in
theorem isShared_shareMAC (m : Manager) (mac mac' : String) :
    (m.shareMAC mac).isShared mac' = (decide (mac' = mac) || m.isShared mac') := by
  unfold isShared shareMAC
  rw [KeyedMap.lookup_insert_eq]
  by_cases h : mac' = mac
  · rw [if_pos h, decide_eq_true h]
    rfl
  · rw [if_neg h, decide_eq_false h, Bool.false_or]

omit [RuneCase] in
theorem setAnchor_anchors (hs : m.isShared mac = false) (h : AnchorsApart m) :
    AnchorsApart (m.setAnchor nodeID mac) := by
  intro mac' hs'
  have hne : mac' ≠ mac := by
    rintro rfl
    rw [isShared_setAnchor, hs] at hs'
    cases hs'
  exact (AList.lookup_insert_ne hne).trans (h mac' hs')

omit [RuneCase] in
theorem shareMAC_anchors (h : AnchorsApart m) : AnchorsApart (m.shareMAC mac) := by
  intro mac' hs'
  rw [isShared_shareMAC] at hs'
  show (m.macToNodeID.erase mac).lookup mac' = none
  rw [KeyedMap.lookup_erase_eq]
  by_cases hm : mac' = mac
  · rw [if_pos hm]
  · rw [if_neg hm]
    rw [decide_eq_false hm, Bool.false_or] at hs'
    exact h mac' hs'

theorem mergeNodeInto_anchors {newID oldID : String} (h : AnchorsApart m) :
    AnchorsApart (m.mergeNodeInto newID oldID hostname) := by
  intro mac' hs'
  rw [mergeNodeInto_macToNodeID, h mac' hs']
  rfl

theorem recordMAC_anchors (h : AnchorsApart m) : AnchorsApart (m.recordMACLocked nodeID mac now) := by
  rw [recordMACLocked_eq]
  cases hn : m.nodes.lookup nodeID with
  | none => exact h
  | some node =>
    obtain ⟨hshared, hanchors, -, -⟩ := noteMAC_tables m nodeID mac node
    have hsame : ∀ mac', (m.noteMAC nodeID mac node).isShared mac' = m.isShared mac' := by
      intro mac'
      unfold isShared
      rw [hshared]
    have hnoted : AnchorsApart (m.noteMAC nodeID mac node) := by
      intro mac' hs'
      rw [hanchors]
      exact h mac' (hsame mac' ▸ hs')
    have hspec := macCase_spec m nodeID mac now
    dsimp only
    cases hc : m.macCase nodeID mac now with
    | skip => exact h
    | note => exact hnoted
    | anchor =>
      rw [hc] at hspec
      have hs := (hsame mac).trans hspec.2.2.1
      exact promote_anchors hs (setAnchor_anchors hs hnoted)
    | confirm =>
      rw [hc] at hspec
      exact promote_anchors ((hsame mac).trans hspec.2.2.1) hnoted
    | share => exact demote_anchors (shareMAC_anchors hnoted)
    | readdress a =>
      rw [hc] at hspec
      have hs := (hsame mac).trans hspec.2.2.1
      exact promote_anchors hs (setAnchor_anchors hs (mergeNodeInto_anchors hnoted))

/-- Noting and sharing the MAC changes nothing about where its node can be demoted to. -/
theorem shareMAC_demotes_iff (mac : String) {node : Node} (hn : m.nodes.lookup nodeID = some node)
    (newID : String) :
    ((m.noteMAC nodeID mac node).shareMAC mac).Demotes mac newID ↔ m.Demotes mac newID := by
  have hkept := (noteMAC_kept mac hn).toNodesKept
  refine and_congr_left fun _ => ?_
  constructor
  · rintro ⟨n', hl', hf⟩
    obtain ⟨n, hl, hr⟩ := hkept.lookup hl'
    exact ⟨n, hl, hr.ips ▸ hf⟩
  · rintro ⟨n, hl, hf⟩
    obtain ⟨n', hl', hr⟩ := hkept.lookup' hl
    exact ⟨n', hl', hr.ips.symm ▸ hf⟩

/-- **Recording a MAC keeps shared MACs off the node ids exactly when it withdraws the MAC.** -/
theorem recordMAC_keysApart_iff (hnode : ∃ n, m.nodes.lookup nodeID = some n) (h : KeysApart m) :
    KeysApart (m.recordMACLocked nodeID mac now) ↔ m.Withdraws nodeID mac now := by
  obtain ⟨node, hn⟩ := hnode
  rw [recordMACLocked_eq, hn]
  obtain ⟨hshared, -, -, -⟩ := noteMAC_tables m nodeID mac node
  have hsame : ∀ mac', (m.noteMAC nodeID mac node).isShared mac' = m.isShared mac' := by
    intro mac'
    unfold isShared
    rw [hshared]
  have hkept := noteMAC_kept mac hn
  have hnoted : KeysApart (m.noteMAC nodeID mac node) :=
    h.of_nodes (fun k => (hkept.toNodesKept.exists_iff k).mp) hsame
  have hspec := macCase_spec m nodeID mac now
  unfold Withdraws
  dsimp only
  cases hc : m.macCase nodeID mac now with
  | skip => exact iff_of_true h nofun
  | note => exact iff_of_true hnoted nofun
  | anchor => exact iff_of_true (promote_keysApart hnoted) nofun
  | confirm => exact iff_of_true (promote_keysApart hnoted) nofun
  | readdress a =>
    rw [hc] at hspec
    obtain ⟨-, -, -, -, hane, anchor, hl, -⟩ := hspec
    refine iff_of_true (promote_keysApart (m := (((m.noteMAC nodeID mac node).mergeNodeInto nodeID a
      node.hostname).setAnchor nodeID mac)) fun mac' hs' hl' => ?_) nofun
    -- the merge is into an id that was a node before
    obtain ⟨-, hold | ⟨rfl, -⟩⟩ := (merge_exists_iff _ node.hostname hane mac').mp hl'
    · exact hnoted mac' hs' hold
    · exact hnoted mac' hs' ((hkept.toNodesKept.exists_iff mac').mpr ⟨node, hn⟩)
  | share =>
    rw [hc] at hspec
    obtain ⟨-, -, hs, -⟩ := hspec
    have hdemotes := fun newID => shareMAC_demotes_iff mac hn newID
    have hsharedAfter : ∀ mac', (((m.noteMAC nodeID mac node).shareMAC mac).demoteMACIdentity
        mac).isShared mac' = (decide (mac' = mac) || m.isShared mac') := by
      intro mac'
      rw [isShared_demote, isShared_shareMAC, hsame]
    constructor
    · intro h' _ n hl
      by_cases hd : ∃ newID, ((m.noteMAC nodeID mac node).shareMAC mac).Demotes mac newID
      · obtain ⟨newID, hd⟩ := hd
        obtain ⟨⟨n₀, hl₀, hf⟩, hne, hnm⟩ := (hdemotes newID).mp hd
        rw [hl] at hl₀
        cases hl₀
        refine ⟨newID, hf, hne, hnm, ?_⟩
        rw [← Bool.not_eq_true]
        intro hsn
        refine h' newID ?_ ((demote_exists_iff hd newID).mpr ⟨hnm, Or.inr rfl⟩)
        rw [hsharedAfter, hsn, Bool.or_true]
      · -- the node of the MAC is left where it is
        refine absurd ?_ (h' mac (by rw [hsharedAfter, decide_eq_true rfl]; rfl))
        rw [demoteMACIdentity_eq_self fun newID hd' => hd ⟨newID, hd'⟩]
        exact (hkept.toNodesKept.exists_iff mac).mpr ⟨n, hl⟩
    · intro hw mac' hs' hl'
      rw [hsharedAfter] at hs'
      by_cases hex : ∃ n, m.nodes.lookup mac = some n
      · obtain ⟨n, hl⟩ := hex
        obtain ⟨newID, hf, hne, hnm, hsn⟩ := hw rfl n hl
        have hd := (hdemotes newID).mpr ⟨⟨n, hl, hf⟩, hne, hnm⟩
        obtain ⟨hmm, hold | rfl⟩ := (demote_exists_iff hd mac').mp hl'
        · rw [decide_eq_false hmm, Bool.false_or] at hs'
          exact h mac' hs' ((hkept.toNodesKept.exists_iff mac').mp hold)
        · rw [decide_eq_false hmm, Bool.false_or, hsn] at hs'
          cases hs'
      · have hnd : ∀ newID, ¬ ((m.noteMAC nodeID mac node).shareMAC mac).Demotes mac newID := by
          intro newID hd
          obtain ⟨⟨n, hl, -⟩, -⟩ := (hdemotes newID).mp hd
          exact hex ⟨n, hl⟩
        rw [demoteMACIdentity_eq_self hnd] at hl'
        have hl' := (hkept.toNodesKept.exists_iff mac').mp hl'
        by_cases hmm : mac' = mac
        · exact hex (hmm ▸ hl')
        · rw [decide_eq_false hmm, Bool.false_or] at hs'
          exact h mac' hs' hl'

theorem recordEndpointMAC_anchors (h : AnchorsApart m) :
    AnchorsApart (m.recordEndpointMAC ip mac now) := by
  unfold recordEndpointMAC
  split
  · exact h
  · split
    · exact h
    · exact recordMAC_anchors h

theorem recordEndpointMAC_keysApart (hw : m.WithdrawsEndpoint ip mac now) (h : KeysApart m) :
    KeysApart (m.recordEndpointMAC ip mac now) := by
  unfold recordEndpointMAC
  split
  · exact h
  · rename_i hmac
    split
    · exact h
    · rename_i id hl
      by_cases hn : ∃ n, m.nodes.lookup id = some n
      · exact (recordMAC_keysApart_iff hn h).mpr (hw hmac id hl)
      · rw [recordMACLocked_eq]
        rw [← Option.ne_none_iff_exists', not_not] at hn
        rw [hn]
        exact h

/-! ## One call of `Ingest` -/

theorem IngestCall.anchorsApart (c : IngestCall) (h : AnchorsApart m) : AnchorsApart (c.apply m) := by
  have hnode : ∀ {m : Manager} {ip hostname : String} {bytes : Nat} {now : Int}, AnchorsApart m →
      AnchorsApart (m.addOrUpdateNodeLocked ip hostname bytes now) := by
    intro m ip hostname bytes now h mac hs
    rw [isShared_addOrUpdateNode] at hs
    exact (addOrUpdateNode_anchors m ip hostname bytes now mac).mpr (h mac hs)
  have hmacs : AnchorsApart (c.afterMACs m) :=
    recordEndpointMAC_anchors (recordEndpointMAC_anchors (hnode (hnode h)))
  obtain ⟨hshared, hanchors⟩ := apply_tables m c
  intro mac hs
  unfold isShared at hs
  rw [hshared] at hs
  rw [hanchors]
  exact hmacs mac hs

theorem IngestCall.keysApart (c : IngestCall) (hc : c.KeepsApart m) (h : KeysApart m) :
    KeysApart (c.apply m) := by
  obtain ⟨hsrc, hdst, hsm, hdm⟩ := hc
  have h0 : KeysApart { m with dirty := true } := h
  have h1 : KeysApart (c.afterSrc m) := (addOrUpdateNode_keysApart_iff c.pkt.length h0).mpr hsrc
  have h2 : KeysApart (c.afterEndpoints m) :=
    (addOrUpdateNode_keysApart_iff c.pkt.length h1).mpr hdst
  have h3 : KeysApart (c.afterSrcMAC m) := recordEndpointMAC_keysApart hsm h2
  have h4 : KeysApart (c.afterMACs m) := recordEndpointMAC_keysApart hdm h3
  refine h4.of_nodes (fun k => ((apply_nodesKept m c).exists_iff k).mp) fun mac => ?_
  unfold isShared
  rw [(apply_tables m c).1]

end Calls

/-! ## Decay -/

section Decay

variable {m : Manager}

/-- A removed node takes the anchors of its own MACs along. -/
theorem removeNode_macToNodeID (m : Manager) (node : Node) (mac : String) :
    (m.removeNode node).macToNodeID.lookup mac
      = if mac ∈ node.macs ∧ m.macToNodeID.lookup mac = some node.ip then none
        else m.macToNodeID.lookup mac := by
  have hfold : ∀ (macs : List String) (nodeID : String) (t : KeyedMap String String),
      (macs.foldl (fun t mac => if t.lookup mac = some nodeID then t.erase mac else t) t).lookup mac
        = if mac ∈ macs ∧ t.lookup mac = some nodeID then none else t.lookup mac := by
    intro macs nodeID
    induction macs with
    | nil => intro t; simp
    | cons mc macs ih =>
      intro t
      rw [List.foldl_cons, ih]
      by_cases hmc : t.lookup mc = some nodeID
      · rw [if_pos hmc, KeyedMap.lookup_erase_eq]
        by_cases he : mac = mc
        · subst he
          simp [hmc]
        · simp [he]
      · rw [if_neg hmc]
        by_cases he : mac = mc
        · subst he
          simp [hmc]
        · simp [he]
  exact hfold node.macs node.ip m.macToNodeID

/-- A sweep only takes nodes and anchors away. -/
theorem removeStaleNodes_shrinks (m : Manager) (threshold now : Int) :
    (m.removeStaleNodes threshold now).1.macShared = m.macShared
      ∧ (∀ k n, (m.removeStaleNodes threshold now).1.nodes.lookup k = some n →
          m.nodes.lookup k = some n)
      ∧ ∀ mac id, (m.removeStaleNodes threshold now).1.macToNodeID.lookup mac = some id →
          m.macToNodeID.lookup mac = some id := by
  have hsweep : ∀ (l : List Node) (m' : Manager), (l.foldl removeNode m').macShared = m'.macShared
      ∧ (∀ k n, (l.foldl removeNode m').nodes.lookup k = some n → m'.nodes.lookup k = some n)
      ∧ ∀ mac id, (l.foldl removeNode m').macToNodeID.lookup mac = some id →
          m'.macToNodeID.lookup mac = some id := by
    intro l
    induction l with
    | nil => intro m'; exact ⟨rfl, fun _ _ hl => hl, fun _ _ hl => hl⟩
    | cons node l ih =>
      intro m'
      obtain ⟨hs, hn, ha⟩ := ih (m'.removeNode node)
      refine ⟨hs, fun k n hl => ?_, fun mac id hl => ?_⟩
      · have hl := hn k n hl
        rw [show (m'.removeNode node).nodes = m'.nodes.erase node.ip from rfl,
          KeyedMap.lookup_erase_eq] at hl
        split at hl
        · cases hl
        · exact hl
      · have hl := ha mac id hl
        rw [removeNode_macToNodeID] at hl
        split at hl
        · cases hl
        · exact hl
  unfold removeStaleNodes
  dsimp only
  split
  · exact hsweep _ { m with dirty := true }
  · exact hsweep _ m

theorem removeStaleEdges_kept (m : Manager) (threshold now : Int) :
    (m.removeStaleEdges threshold now).1.macShared = m.macShared
      ∧ (m.removeStaleEdges threshold now).1.nodes = m.nodes
      ∧ (m.removeStaleEdges threshold now).1.macToNodeID = m.macToNodeID
      ∧ (m.removeStaleEdges threshold now).1.hostnameToNodeID = m.hostnameToNodeID := by
  have hsweep : ∀ (l : List Edge) (m' : Manager), (l.foldl removeEdge m').macShared = m'.macShared
      ∧ (l.foldl removeEdge m').nodes = m'.nodes
      ∧ (l.foldl removeEdge m').macToNodeID = m'.macToNodeID
      ∧ (l.foldl removeEdge m').hostnameToNodeID = m'.hostnameToNodeID := by
    intro l
    induction l with
    | nil => intro m'; exact ⟨rfl, rfl, rfl, rfl⟩
    | cons e l ih => intro m'; exact ih (m'.removeEdge e)
  unfold removeStaleEdges
  dsimp only
  split
  · exact hsweep _ { m with dirty := true }
  · exact hsweep _ m

end Decay

/-! ## Runs -/

/-- Packets and decay: the calls a live capture makes. -/
def Op.Live : Op → Prop
  | .ingest .. => True
  | .removeStaleNodes .. => True
  | .removeStaleEdges .. => True
  | _ => False

section Runs

variable [RuneCase]

/-- The call lets no shared MAC become or stay a node id. -/
def Op.KeepsApart (m : Manager) : Op → Prop
  | .ingest pkt srcHostname dstHostname clock =>
      IngestCall.KeepsApart m ⟨pkt, srcHostname, dstHostname, clock⟩
  | _ => True

instance (m : Manager) (op : Op) : Decidable (op.KeepsApart m) := by
  cases op <;> unfold Op.KeepsApart <;> infer_instance

theorem anchorsApart_step {m : Manager} {op : Op} (h : AnchorsApart m) (hop : op.Live) :
    AnchorsApart (op.apply m) := by
  cases op with
  | ingest pkt srcHostname dstHostname clock =>
    exact IngestCall.anchorsApart ⟨pkt, srcHostname, dstHostname, clock⟩ h
  | removeStaleNodes threshold now =>
    obtain ⟨hs, -, ha⟩ := removeStaleNodes_shrinks m threshold now
    intro mac hm
    unfold isShared at hm
    rw [Option.eq_none_iff_forall_ne_some]
    intro id hl
    rw [show (Op.removeStaleNodes threshold now).apply m = (m.removeStaleNodes threshold now).1
      from rfl] at hm hl
    rw [hs] at hm
    exact absurd (ha mac id hl) (by rw [h mac hm]; nofun)
  | removeStaleEdges threshold now =>
    obtain ⟨hs, -, ha, -⟩ := removeStaleEdges_kept m threshold now
    intro mac hm
    unfold isShared at hm
    show (m.removeStaleEdges threshold now).1.macToNodeID.lookup mac = none
    rw [show (Op.removeStaleEdges threshold now).apply m = (m.removeStaleEdges threshold now).1
      from rfl, hs] at hm
    rw [ha]
    exact h mac hm
  | addOrUpdateNode ip hostname bytes now => exact hop.elim
  | addOrUpdateEdge srcIP dstIP protocol bytes now => exact hop.elim
  | bulkLoad reg nodes edges clock => exact hop.elim
  | clear => exact hop.elim

theorem keysApart_step {m : Manager} {op : Op} (h : KeysApart m) (hop : op.Live)
    (hc : op.KeepsApart m) : KeysApart (op.apply m) := by
  cases op with
  | ingest pkt srcHostname dstHostname clock =>
    exact IngestCall.keysApart ⟨pkt, srcHostname, dstHostname, clock⟩ hc h
  | removeStaleNodes threshold now =>
    obtain ⟨hs, hn, -⟩ := removeStaleNodes_shrinks m threshold now
    refine h.of_nodes (fun k ⟨n, hl⟩ => ⟨n, hn k n hl⟩) fun mac => ?_
    show (m.removeStaleNodes threshold now).1.isShared mac = _
    unfold isShared
    rw [hs]
  | removeStaleEdges threshold now =>
    obtain ⟨hs, hn, -⟩ := removeStaleEdges_kept m threshold now
    refine h.of_nodes (fun k ⟨n, hl⟩ => ⟨n, hn ▸ hl⟩) fun mac => ?_
    show (m.removeStaleEdges threshold now).1.isShared mac = _
    unfold isShared
    rw [hs]
  | addOrUpdateNode ip hostname bytes now => exact hop.elim
  | addOrUpdateEdge srcIP dstIP protocol bytes now => exact hop.elim
  | bulkLoad reg nodes edges clock => exact hop.elim
  | clear => exact hop.elim

/--
**A shared MAC is never an anchor**, and never a node id in a run that files no
endpoint under one and can withdraw each MAC that becomes shared.
-/
theorem sharedMAC_run (ops : List Op) (hops : ∀ op ∈ ops, op.Live) :
    AnchorsApart (runOps ops)
      ∧ (Run.Guarded Op.apply Op.KeepsApart newManager ops → KeysApart (runOps ops)) := by
  have hinit : ∀ mac, newManager.isShared mac = false := fun _ => rfl
  have hlive : Run.Guarded Op.apply (fun _ op => op.Live) newManager ops :=
    Run.guarded_of_forall newManager hops
  constructor
  · refine Run.invariant (P := AnchorsApart) ?_ (fun m op h hop => anchorsApart_step h hop) hlive
    exact fun mac hs => absurd hs (by rw [hinit]; nofun)
  · intro hc
    refine Run.invariant (P := KeysApart) ?_ (fun m op h hok => keysApart_step h hok.1 hok.2)
      (Run.Guarded.and hlive hc)
    exact fun mac hs => absurd hs (by rw [hinit]; nofun)

end Runs

/-- A gateway that forwards for two hosts within the activity window. -/
def gatewayRun : List Op :=
  [.ingest { srcIP := "10.0.0.5", dstIP := "8.8.8.8", srcMAC := "aa:bb:cc:00:11:22", length := 60 }
    "" "" {},
   .ingest { srcIP := "10.0.0.6", dstIP := "8.8.8.8", srcMAC := "aa:bb:cc:00:11:22", length := 60 }
    "" "" {}]

theorem sharedMAC_run_gateway : KeysApart (runOps gatewayRun)
    ∧ (runOps gatewayRun).isShared "aa:bb:cc:00:11:22" = true :=
  ⟨(sharedMAC_run gatewayRun (by simp [gatewayRun, Op.Live])).2 (by decide), by decide⟩

/-- A router announces itself by LLDP before it forwards for the same two hosts. -/
def announcedRouterRun : List Op :=
  .ingest { srcIP := "aa:bb:cc:00:11:22", dstIP := "01:80:c2:00:00:0e", length := 120,
            deviceKind := "router" } "" "" {} :: gatewayRun

set_option maxRecDepth 4000 in
/-- Its MAC becomes shared and stays a node id: the node has no other address to go back to. -/
theorem sharedMAC_announcedRouter : ¬ ∀ ops : List Op, (∀ op ∈ ops, op.Live) →
    AnchorsApart (runOps ops) ∧ KeysApart (runOps ops) := by
  intro h
  have hnode : ((runOps announcedRouterRun).nodes.lookup "aa:bb:cc:00:11:22").isSome = true := by
    decide
  exact (h announcedRouterRun (by simp [announcedRouterRun, gatewayRun, Op.Live])).2 "aa:bb:cc:00:11:22"
    (by decide) (Option.isSome_iff_exists.mp hnode)

end Etherchimp
