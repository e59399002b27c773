import Etherchimp.Graph.Ops

/-!
# What the packet path can do to node identity

Everything `recordMACLocked` and its helpers do to the nodes is a sequence of two
kinds of change: merges, and updates that keep every id, address list and counter
in place (`Kept`). An invariant closed under both therefore survives the whole MAC
path, and this module proves that once.

Some invariants survive a merge only under a condition on it. `promoteMerges`,
`recordMerges` and so on say that every merge a call makes meets a given
condition in the state it is made in; they follow the branches of the call.
-/

namespace Etherchimp

/-! ## Changes that keep the graph -/

/-- The node under `k` keeps its addresses and counters; its id stays or becomes `k`. -/
structure NodeKept (k : String) (n n' : Node) : Prop where
  ips : n'.ips = n.ips
  packetCount : n'.packetCount = n.packetCount
  byteCount : n'.byteCount = n.byteCount
  ip : n'.ip = n.ip ∨ n'.ip = k

theorem NodeKept.refl (k : String) (n : Node) : NodeKept k n n := ⟨rfl, rfl, rfl, Or.inl rfl⟩

theorem NodeKept.trans {k : String} {a b c : Node} (h : NodeKept k a b) (h' : NodeKept k b c) :
    NodeKept k a c where
  ips := h'.ips.trans h.ips
  packetCount := h'.packetCount.trans h.packetCount
  byteCount := h'.byteCount.trans h.byteCount
  ip := h'.ip.elim (fun e => h.ip.imp (fun e' => e.trans e') (fun e' => e.trans e')) Or.inr

/-- Nodes and addresses are kept; the edges may change. -/
structure NodesKept (m m' : Manager) : Prop where
  nodes : ∀ k, Option.Rel (NodeKept k) (m.nodes.lookup k) (m'.nodes.lookup k)
  ipTo : m'.ipToNodeID = m.ipToNodeID

/-- Nodes, addresses and edges are kept. -/
structure Kept (m m' : Manager) : Prop extends NodesKept m m' where
  edges : m'.edges = m.edges
  edgesByNode : m'.edgesByNode = m.edgesByNode

theorem NodesKept.of_nodes_eq {m m' : Manager} (hn : m'.nodes = m.nodes)
    (hi : m'.ipToNodeID = m.ipToNodeID) : NodesKept m m' where
  nodes k := by
    rw [hn]
    cases m.nodes.lookup k with
    | none => exact Option.Rel.none
    | some n => exact Option.Rel.some (NodeKept.refl k n)
  ipTo := hi

theorem NodesKept.trans {a b c : Manager} (h : NodesKept a b) (h' : NodesKept b c) :
    NodesKept a c where
  nodes k := by
    have h1 := h.nodes k
    have h2 := h'.nodes k
    revert h1 h2
    generalize a.nodes.lookup k = x, b.nodes.lookup k = y, c.nodes.lookup k = z
    intro h1 h2
    cases h1 with
    | none => exact h2
    | some r1 => cases h2 with | some r2 => exact Option.Rel.some (r1.trans r2)
  ipTo := h'.ipTo.trans h.ipTo

theorem Kept.of_nodes_eq {m m' : Manager} (hn : m'.nodes = m.nodes)
    (hi : m'.ipToNodeID = m.ipToNodeID) (he : m'.edges = m.edges)
    (hx : m'.edgesByNode = m.edgesByNode) : Kept m m' :=
  ⟨NodesKept.of_nodes_eq hn hi, he, hx⟩

theorem Kept.trans {a b c : Manager} (h : Kept a b) (h' : Kept b c) : Kept a c :=
  ⟨h.toNodesKept.trans h'.toNodesKept, h'.edges.trans h.edges, h'.edgesByNode.trans h.edgesByNode⟩

theorem Kept.refl (m : Manager) : Kept m m := Kept.of_nodes_eq rfl rfl rfl rfl

/-- Rewriting one node in place, under its own key. -/
theorem NodesKept.adjust {m m' : Manager} {id : String} {f : Node → Node}
    (hn : m'.nodes = m.nodes.adjust id f) (hi : m'.ipToNodeID = m.ipToNodeID)
    (hf : ∀ n, NodeKept id n (f n)) : NodesKept m m' where
  nodes k := by
    rw [hn, KeyedMap.lookup_adjust]
    by_cases hk : k = id
    · subst hk
      rw [if_pos rfl]
      cases m.nodes.lookup k with
      | none => exact Option.Rel.none
      | some n => exact Option.Rel.some (hf n)
    · rw [if_neg hk]
      cases m.nodes.lookup k with
      | none => exact Option.Rel.none
      | some n => exact Option.Rel.some (NodeKept.refl k n)
  ipTo := hi

/-- Overwriting the node under `id` by one that keeps it. -/
theorem NodesKept.insert {m m' : Manager} {id : String} {node node' : Node}
    (hl : m.nodes.lookup id = some node) (hn : m'.nodes = m.nodes.insert id node')
    (hi : m'.ipToNodeID = m.ipToNodeID) (hf : NodeKept id node node') : NodesKept m m' where
  nodes k := by
    rw [hn, KeyedMap.lookup_insert_eq]
    by_cases hk : k = id
    · subst hk; rw [if_pos rfl, hl]; exact Option.Rel.some hf
    · rw [if_neg hk]
      cases m.nodes.lookup k with
      | none => exact Option.Rel.none
      | some n => exact Option.Rel.some (NodeKept.refl k n)
  ipTo := hi

/-- A kept node is found on both sides. -/
theorem NodesKept.lookup {m m' : Manager} (h : NodesKept m m') {k : String} {n' : Node}
    (hl : m'.nodes.lookup k = some n') : ∃ n, m.nodes.lookup k = some n ∧ NodeKept k n n' := by
  have hr := h.nodes k
  rw [hl] at hr
  cases hm : m.nodes.lookup k with
  | none => rw [hm] at hr; cases hr
  | some n => rw [hm] at hr; cases hr with | some r => exact ⟨n, rfl, r⟩

theorem NodesKept.lookup' {m m' : Manager} (h : NodesKept m m') {k : String} {n : Node}
    (hl : m.nodes.lookup k = some n) : ∃ n', m'.nodes.lookup k = some n' ∧ NodeKept k n n' := by
  have hr := h.nodes k
  rw [hl] at hr
  cases hm : m'.nodes.lookup k with
  | none => rw [hm] at hr; cases hr
  | some n' => rw [hm] at hr; cases hr with | some r => exact ⟨n', rfl, r⟩

theorem NodesKept.lookup_none {m m' : Manager} (h : NodesKept m m') {k : String} :
    m'.nodes.lookup k = none ↔ m.nodes.lookup k = none := by
  have hr := h.nodes k
  cases hm : m.nodes.lookup k <;> cases hm' : m'.nodes.lookup k <;> rw [hm, hm'] at hr <;>
    cases hr
  all_goals simp

/-! ## The kept changes of the packet path -/

namespace Manager

variable {m : Manager} {nodeID mac : String}

theorem claimHostname_kept (m : Manager) (ip hostname : String) :
    Kept m ({ m with dirty := true }.claimHostname ip hostname) := by
  unfold claimHostname
  split <;> exact Kept.of_nodes_eq rfl rfl rfl rfl

theorem addPeersLocked_nodesKept (m : Manager) (aID bID : String) :
    NodesKept m (m.addPeersLocked aID bID) := by
  have hp : ∀ (m : Manager) (a b : String), NodesKept m { m with nodes := addPeer m.nodes a b } :=
    fun m a b => NodesKept.adjust rfl rfl fun n => ⟨rfl, rfl, rfl, Or.inl rfl⟩
  unfold addPeersLocked
  split
  · exact NodesKept.of_nodes_eq rfl rfl
  · split
    · exact NodesKept.of_nodes_eq rfl rfl
    · exact (hp m aID bID).trans (hp { m with nodes := addPeer m.nodes aID bID } bID aID)

@[simp] theorem addPeersLocked_edges (m : Manager) (aID bID : String) :
    (m.addPeersLocked aID bID).edges = m.edges := by
  unfold addPeersLocked
  split
  · rfl
  · split <;> rfl

@[simp] theorem addPeersLocked_ipToNodeID (m : Manager) (aID bID : String) :
    (m.addPeersLocked aID bID).ipToNodeID = m.ipToNodeID :=
  (addPeersLocked_nodesKept m aID bID).ipTo

theorem countOnEdge_nodesKept (m : Manager) (edgeID fromID toID : String) (isForward : Bool)
    (protocol : Protocol) (bytes : Nat) (now : Int) :
    NodesKept m (m.countOnEdge edgeID fromID toID isForward protocol bytes now) := by
  unfold countOnEdge
  split <;> exact NodesKept.of_nodes_eq rfl rfl

theorem addOrUpdateEdgeLocked_nodesKept (m : Manager) (srcIP dstIP : String) (protocol : Protocol)
    (bytes : Nat) (now : Int) :
    NodesKept m (m.addOrUpdateEdgeLocked srcIP dstIP protocol bytes now) := by
  have h1 : NodesKept m (m.countProtocol protocol) := NodesKept.of_nodes_eq rfl rfl
  unfold addOrUpdateEdgeLocked
  dsimp only
  generalize (m.countProtocol protocol).resolve srcIP = src,
    (m.countProtocol protocol).resolve dstIP = dst
  obtain ⟨key, f, t⟩ := getCanonicalEdgeID src dst
  have h2 := h1.trans (addPeersLocked_nodesKept (m.countProtocol protocol) f t)
  have h3 := h2.trans (countOnEdge_nodesKept ((m.countProtocol protocol).addPeersLocked f t) key f t
    (src = f) protocol bytes now)
  exact ⟨h3.nodes, h3.ipTo⟩

theorem addPortObservationLocked_kept (m : Manager) (srcIP dstIP : String) (dstPort : UInt16) :
    Kept m (m.addPortObservationLocked srcIP dstIP dstPort) := by
  have h1 : ∀ id, NodesKept m
      { m with nodes := m.nodes.adjust id (fun src => { src with outPackets := src.outPackets + 1 }) } :=
    fun id => NodesKept.adjust rfl rfl fun n => ⟨rfl, rfl, rfl, Or.inl rfl⟩
  refine ⟨(h1 ((m.ipToNodeID.lookup srcIP).getD "")).trans
    (NodesKept.adjust rfl rfl fun n => ?_), rfl, rfl⟩
  dsimp only
  split <;> exact ⟨rfl, rfl, rfl, Or.inl rfl⟩

theorem stampDeviceInfoLocked_kept (m : Manager) (pkt : PacketInfo) :
    Kept m (m.stampDeviceInfoLocked pkt) := by
  unfold stampDeviceInfoLocked
  split
  · exact Kept.refl m
  · split
    · exact Kept.refl m
    · exact ⟨NodesKept.adjust rfl rfl fun n => ⟨rfl, rfl, rfl, Or.inl rfl⟩, rfl, rfl⟩

variable [RuneCase]

theorem noteMAC_kept (mac : String) {node : Node} (hl : m.nodes.lookup nodeID = some node) :
    Kept m (m.noteMAC nodeID mac node) := by
  unfold noteMAC
  split
  · exact Kept.refl m
  · exact ⟨NodesKept.insert hl rfl rfl ⟨rfl, rfl, rfl, Or.inl rfl⟩, rfl, rfl⟩

theorem nameNode_kept (id hostname mac : String) (n : Node) :
    NodeKept id n (nameNode id hostname mac n) := ⟨rfl, rfl, rfl, Or.inr rfl⟩

/-! ## The merges a call makes -/

/-- The merge of `mergePrevious` meets `P`. -/
def previousMerges (P : Manager → String → String → Prop) (m : Manager)
    (ip hostname nodeID : String) : Prop :=
  let existingNodeID := (m.ipToNodeID.lookup ip).getD ""
  existingNodeID ≠ "" → existingNodeID ≠ nodeID →
    P ({ m with dirty := true }.claimHostname ip hostname) nodeID existingNodeID

/-- `promoteNodeIDToMAC` re-keys `nodeID` to `mac`. -/
def Promotes (m : Manager) (nodeID mac : String) : Prop :=
  nodeID ≠ "" ∧ nodeID ≠ mac ∧ m.isShared mac = false ∧ isHostMAC mac ∧ ¬ isHostMAC nodeID
    ∧ ∃ node, m.nodes.lookup nodeID = some node ∧ node.isGroup = false

/-- The merge of `promoteNodeIDToMAC` meets `P`. -/
def promoteMerges (P : Manager → String → String → Prop) (m : Manager) (nodeID mac : String) :
    Prop :=
  m.Promotes nodeID mac → P m mac nodeID

/-- The merge of `demoteMACIdentity` meets `P`. -/
def demoteMerges (P : Manager → String → String → Prop) (m : Manager) (mac : String) : Prop :=
  ∀ node, m.nodes.lookup mac = some node → ∀ newID, firstHostIP node.ips = some newID →
    newID ≠ "" → newID ≠ mac → P m newID mac

/-- Point the MAC's anchor at the node. -/
def setAnchor (m : Manager) (nodeID mac : String) : Manager :=
  { m with macToNodeID := m.macToNodeID.insert mac nodeID }

/-- What `recordMACLocked` decides to do. -/
inductive MACCase
  /-- Not a host MAC, or no such node. -/
  | skip
  /-- The MAC is shared: recorded, never an identity. -/
  | note
  /-- No live anchor: this node becomes it. -/
  | anchor
  /-- This node is the anchor already. -/
  | confirm
  /-- The anchor is another live node: the MAC becomes shared. -/
  | share
  /-- The anchor went quiet: it is merged into this node. -/
  | readdress (anchorID : String)
  deriving DecidableEq

/-- The branch `recordMACLocked` takes. -/
def macCase (m : Manager) (nodeID mac : String) (now : Int) : MACCase :=
  if nodeID = "" ∨ ¬ isHostMAC mac then .skip
  else
    match m.nodes.lookup nodeID with
    | none => .skip
    | some _ =>
        if m.isShared mac then .note
        else
          match m.macToNodeID.lookup mac with
          | none => .anchor
          | some anchorID =>
              if anchorID = nodeID then .confirm
              else
                match m.nodes.lookup anchorID with
                | none => .anchor
                | some anchor =>
                    if now - anchor.lastSeen < m.macActiveWindow then .share
                    else .readdress anchorID

/-- The merges of `recordMACLocked` meet `P`. -/
def recordMerges (P : Manager → String → String → Prop) (m : Manager) (nodeID mac : String)
    (now : Int) : Prop :=
  ∀ node, m.nodes.lookup nodeID = some node →
    let noted := m.noteMAC nodeID mac node
    match m.macCase nodeID mac now with
    | .skip => True
    | .note => True
    | .anchor => promoteMerges P (noted.setAnchor nodeID mac) nodeID mac
    | .confirm => promoteMerges P noted nodeID mac
    | .share => demoteMerges P (noted.shareMAC mac) mac
    | .readdress anchorID =>
        P noted nodeID anchorID
          ∧ promoteMerges P
              ((noted.mergeNodeInto nodeID anchorID node.hostname).setAnchor nodeID mac) nodeID mac

/-- The merges of `recordEndpointMAC` meet `P`. -/
def endpointMerges (P : Manager → String → String → Prop) (m : Manager) (ip mac : String)
    (now : Int) : Prop :=
  mac ≠ "" → ∀ id, m.ipToNodeID.lookup ip = some id → recordMerges P m id mac now

section Decide

variable {P : Manager → String → String → Prop} [∀ m a b, Decidable (P m a b)]

instance (m : Manager) (nodeID mac : String) : Decidable (m.Promotes nodeID mac) := by
  unfold Promotes; infer_instance

instance (m : Manager) (ip hostname nodeID : String) :
    Decidable (m.previousMerges P ip hostname nodeID) := by
  unfold previousMerges; infer_instance

instance (m : Manager) (nodeID mac : String) : Decidable (m.promoteMerges P nodeID mac) := by
  unfold promoteMerges; infer_instance

instance (m : Manager) (mac : String) : Decidable (m.demoteMerges P mac) := by
  unfold demoteMerges; infer_instance

instance (m : Manager) (nodeID mac : String) (now : Int) :
    Decidable (m.recordMerges P nodeID mac now) := by
  unfold recordMerges
  cases m.macCase nodeID mac now <;> dsimp only <;> infer_instance

instance (m : Manager) (ip mac : String) (now : Int) :
    Decidable (m.endpointMerges P ip mac now) := by
  unfold endpointMerges; infer_instance

end Decide

/-- A condition that always holds is met by every merge. -/
theorem endpointMerges_of_forall {P : Manager → String → String → Prop} (hP : ∀ m a b, P m a b)
    (m : Manager) (ip mac : String) (now : Int) : m.endpointMerges P ip mac now := by
  intro _ id _ node _
  dsimp only
  cases m.macCase id mac now with
  | skip => trivial
  | note => trivial
  | anchor => exact fun _ => hP ..
  | confirm => exact fun _ => hP ..
  | share => exact fun _ _ _ _ _ _ => hP ..
  | readdress anchorID => exact ⟨hP .., fun _ => hP ..⟩

/-! ## One equation for each call -/

theorem noteMAC_lookup_ne {node : Node} {k : String} (hk : k ≠ nodeID) :
    (m.noteMAC nodeID mac node).nodes.lookup k = m.nodes.lookup k := by
  unfold noteMAC
  split
  · rfl
  · exact AList.lookup_insert_ne hk

theorem noteMAC_tables (m : Manager) (nodeID mac : String) (node : Node) :
    (m.noteMAC nodeID mac node).macShared = m.macShared
      ∧ (m.noteMAC nodeID mac node).macToNodeID = m.macToNodeID
      ∧ (m.noteMAC nodeID mac node).hostnameToNodeID = m.hostnameToNodeID
      ∧ (m.noteMAC nodeID mac node).macActiveWindow = m.macActiveWindow := by
  unfold noteMAC
  split <;> exact ⟨rfl, rfl, rfl, rfl⟩

/-- `recordMACLocked` does what its case says. -/
theorem recordMACLocked_eq (m : Manager) (nodeID mac : String) (now : Int) :
    m.recordMACLocked nodeID mac now =
      match m.nodes.lookup nodeID with
      | none => m
      | some node =>
          let noted := m.noteMAC nodeID mac node
          match m.macCase nodeID mac now with
          | .skip => m
          | .note => noted
          | .anchor => (noted.setAnchor nodeID mac).promoteNodeIDToMAC nodeID mac
          | .confirm => noted.promoteNodeIDToMAC nodeID mac
          | .share => (noted.shareMAC mac).demoteMACIdentity mac
          | .readdress anchorID =>
              ((noted.mergeNodeInto nodeID anchorID node.hostname).setAnchor nodeID mac
                ).promoteNodeIDToMAC nodeID mac := by
  unfold recordMACLocked macCase
  cases hn : m.nodes.lookup nodeID with
  | none => dsimp only; split <;> rfl
  | some node =>
    obtain ⟨hsh, hmac, -, hwin⟩ := noteMAC_tables m nodeID mac node
    dsimp only
    by_cases hg : nodeID = "" ∨ ¬ isHostMAC mac
    · rw [if_pos hg, if_pos hg]
    · rw [if_neg hg, if_neg hg]
      have hshared : (m.noteMAC nodeID mac node).isShared mac = m.isShared mac := by
        unfold isShared; rw [hsh]
      rw [hshared, hmac]
      by_cases hs : m.isShared mac
      · rw [if_pos hs, if_pos hs]
      · rw [if_neg hs, if_neg hs]
        cases ha : m.macToNodeID.lookup mac with
        | none => rfl
        | some anchorID =>
          dsimp only
          by_cases he : anchorID = nodeID
          · rw [if_pos he, if_pos he]
          · rw [if_neg he, if_neg he, noteMAC_lookup_ne he, hwin]
            cases m.nodes.lookup anchorID with
            | none => rfl
            | some anchor =>
              dsimp only
              by_cases hw : now - anchor.lastSeen < m.macActiveWindow
              · rw [if_pos hw, if_pos hw]
              · rw [if_neg hw, if_neg hw]; rfl

/-- A re-key to a MAC is a merge followed by changes that keep the graph. -/
theorem promoteNodeIDToMAC_cases (m : Manager) (nodeID mac : String) :
    (m.promoteNodeIDToMAC nodeID mac = m ∧ ¬ m.Promotes nodeID mac)
      ∨ (m.Promotes nodeID mac ∧ ∃ hostname,
          Kept (m.mergeNodeInto mac nodeID hostname) (m.promoteNodeIDToMAC nodeID mac)
            ∧ (m.promoteNodeIDToMAC nodeID mac).macShared = m.macShared
            ∧ (m.promoteNodeIDToMAC nodeID mac).macToNodeID
                = (m.mergeNodeInto mac nodeID hostname).macToNodeID.insert mac mac) := by
  unfold promoteNodeIDToMAC
  by_cases hg : nodeID = "" ∨ mac = "" ∨ nodeID = mac ∨ m.isShared mac
  · rw [if_pos hg]
    refine Or.inl ⟨rfl, fun h => ?_⟩
    obtain ⟨h1, h2, h3, h4, _⟩ := h
    rcases hg with hg | hg | hg | hg
    · exact h1 hg
    · subst hg; exact absurd h4 (by decide)
    · exact h2 hg
    · rw [h3] at hg; cases hg
  rw [if_neg hg]
  by_cases hmac : isHostMAC mac
  case neg => rw [if_pos hmac]; exact Or.inl ⟨rfl, fun h => hmac h.2.2.2.1⟩
  rw [if_neg (not_not.mpr hmac)]
  cases hn : m.nodes.lookup nodeID with
  | none =>
    refine Or.inl ⟨rfl, fun h => ?_⟩
    obtain ⟨_, _, _, _, _, node, hl, _⟩ := h
    rw [hn] at hl; cases hl
  | some node =>
    dsimp only
    by_cases hgr : node.isGroup
    · rw [if_pos hgr]
      refine Or.inl ⟨rfl, fun h => ?_⟩
      obtain ⟨_, _, _, _, _, node', hl, hg'⟩ := h
      rw [hn, Option.some.injEq] at hl
      rw [← hl, hgr] at hg'; cases hg'
    rw [if_neg hgr]
    by_cases hid : isHostMAC nodeID
    · rw [if_pos hid]; exact Or.inl ⟨rfl, fun h => h.2.2.2.2.1 hid⟩
    rw [if_neg hid]
    simp only [not_or, Bool.not_eq_true] at hg
    refine Or.inr ⟨⟨hg.1, hg.2.2.1, hg.2.2.2, hmac, hid, node, hn, by simpa using hgr⟩,
      promotedHostname node nodeID, ?_⟩
    generalize promotedHostname node nodeID = hostname
    have hname : Kept (m.mergeNodeInto mac nodeID hostname)
        { m.mergeNodeInto mac nodeID hostname with
          nodes := (m.mergeNodeInto mac nodeID hostname).nodes.adjust mac (nameNode mac hostname mac)
          macToNodeID := (m.mergeNodeInto mac nodeID hostname).macToNodeID.insert mac mac } :=
      ⟨NodesKept.adjust rfl rfl (nameNode_kept mac hostname mac), rfl, rfl⟩
    refine ⟨hname.trans ?_, ?_, ?_⟩
    · split <;> split <;> exact Kept.of_nodes_eq rfl rfl rfl rfl
    · split <;> split <;> rfl
    · split <;> split <;> rfl

/-- A demotion is a merge followed by a change that keeps the graph. -/
theorem demoteMACIdentity_cases (m : Manager) (mac : String) :
    m.demoteMACIdentity mac = m
      ∨ ∃ node newID hostname, m.nodes.lookup mac = some node ∧ firstHostIP node.ips = some newID
          ∧ newID ≠ "" ∧ newID ≠ mac
          ∧ Kept (m.mergeNodeInto newID mac hostname) (m.demoteMACIdentity mac)
          ∧ (m.demoteMACIdentity mac).macShared = m.macShared
          ∧ (m.demoteMACIdentity mac).macToNodeID
              = (m.mergeNodeInto newID mac hostname).macToNodeID := by
  unfold demoteMACIdentity
  cases hn : m.nodes.lookup mac with
  | none => exact Or.inl rfl
  | some node =>
    dsimp only
    split
    · exact Or.inl rfl
    · rename_i hg
      simp only [not_or] at hg
      cases hf : firstHostIP node.ips with
      | none => rw [hf] at hg; exact absurd rfl hg.1
      | some newID =>
        rw [hf] at hg
        exact Or.inr ⟨node, newID, _, rfl, hf, hg.1, hg.2,
          ⟨NodesKept.adjust rfl rfl (nameNode_kept _ _ _), rfl, rfl⟩, rfl, rfl⟩

/-! ## Invariants closed under merges and kept changes -/

/--
`I` is closed under everything the MAC path does, given that the ids coming from
outside are admissible (`A`) and the merges meet `P`.
-/
structure Closed (A : String → Prop) (P : Manager → String → String → Prop)
    (I : Manager → Prop) : Prop where
  kept : ∀ {m m'}, Kept m m' → I m → I m'
  /-- Every id and every address on a node is admissible. -/
  admissible : ∀ {m k node}, I m → m.nodes.lookup k = some node → A k ∧ ∀ ip ∈ node.ips, A ip
  /-- Every address resolves to a node. -/
  resolves : ∀ {m k} ip, I m → m.ipToNodeID.lookup ip = some k → k ≠ "" →
    ∃ node, m.nodes.lookup k = some node
  merge : ∀ {m newID oldID hostname}, oldID ≠ newID → A newID →
    (∃ node, m.nodes.lookup oldID = some node) → P m newID oldID → I m →
    I (m.mergeNodeInto newID oldID hostname)

variable {A : String → Prop} {P : Manager → String → String → Prop} {I : Manager → Prop}

theorem mergePrevious_preserves (hC : Closed A P I) {ip hostname nodeID : String}
    (hA : A nodeID) (hP : m.previousMerges P ip hostname nodeID) (hI : I m) :
    I (m.mergePrevious ip hostname nodeID) := by
  have hk := claimHostname_kept m ip hostname
  have hI' := hC.kept hk hI
  unfold mergePrevious
  dsimp only
  split
  · rename_i hg
    refine hC.merge hg.2 hA ?_ (hP hg.1 hg.2) hI'
    cases hl : m.ipToNodeID.lookup ip with
    | none => rw [hl] at hg; exact absurd rfl hg.1
    | some k =>
      rw [hl] at hg
      exact hC.resolves ip hI' (by rw [hk.ipTo]; exact hl) hg.1
  · exact hI'

theorem promoteNodeIDToMAC_preserves (hC : Closed A P I) (hA : A mac)
    (hP : m.promoteMerges P nodeID mac) (hI : I m) : I (m.promoteNodeIDToMAC nodeID mac) := by
  rcases promoteNodeIDToMAC_cases m nodeID mac with ⟨he, _⟩ | ⟨hp, hostname, hk, -⟩
  · rw [he]; exact hI
  · obtain ⟨-, hnm, -, -, -, node, hl, -⟩ := id hp
    exact hC.kept hk (hC.merge hnm hA ⟨node, hl⟩ (hP hp) hI)

theorem demoteMACIdentity_preserves (hC : Closed A P I)
    (hP : m.demoteMerges P mac) (hI : I m) : I (m.demoteMACIdentity mac) := by
  rcases demoteMACIdentity_cases m mac with he | ⟨node, newID, hostname, hl, hf, hne, hnm, hk, -⟩
  · rw [he]; exact hI
  · have hA : A newID := (hC.admissible hI hl).2 newID (List.mem_of_find?_eq_some hf)
    exact hC.kept hk (hC.merge hnm.symm hA ⟨node, hl⟩ (hP node hl newID hf hne hnm) hI)

omit [RuneCase] in
/-- The guards behind each branch of `recordMACLocked`. -/
theorem macCase_spec (m : Manager) (nodeID mac : String) (now : Int) :
    match m.macCase nodeID mac now with
    | .skip => nodeID = "" ∨ ¬ isHostMAC mac ∨ m.nodes.lookup nodeID = none
    | .note => nodeID ≠ "" ∧ isHostMAC mac ∧ m.isShared mac
    | .anchor => nodeID ≠ "" ∧ isHostMAC mac ∧ m.isShared mac = false
        ∧ ∀ a, m.macToNodeID.lookup mac = some a → a ≠ nodeID ∧ m.nodes.lookup a = none
    | .confirm => nodeID ≠ "" ∧ isHostMAC mac ∧ m.isShared mac = false
        ∧ m.macToNodeID.lookup mac = some nodeID
    | .share => nodeID ≠ "" ∧ isHostMAC mac ∧ m.isShared mac = false
        ∧ ∃ a anchor, m.macToNodeID.lookup mac = some a ∧ a ≠ nodeID
          ∧ m.nodes.lookup a = some anchor ∧ now - anchor.lastSeen < m.macActiveWindow
    | .readdress a => nodeID ≠ "" ∧ isHostMAC mac ∧ m.isShared mac = false
        ∧ m.macToNodeID.lookup mac = some a ∧ a ≠ nodeID
        ∧ ∃ anchor, m.nodes.lookup a = some anchor
          ∧ ¬ now - anchor.lastSeen < m.macActiveWindow := by
  unfold macCase
  by_cases hg : nodeID = "" ∨ ¬ isHostMAC mac
  · rw [if_pos hg]; exact hg.imp id Or.inl
  rw [if_neg hg]
  simp only [not_or, not_not] at hg
  obtain ⟨hne, hmac⟩ := hg
  cases hn : m.nodes.lookup nodeID with
  | none => exact Or.inr (Or.inr rfl)
  | some node =>
    dsimp only
    by_cases hs : m.isShared mac
    · rw [if_pos hs]; exact ⟨hne, hmac, hs⟩
    rw [if_neg hs]
    rw [Bool.not_eq_true] at hs
    cases ha : m.macToNodeID.lookup mac with
    | none => exact ⟨hne, hmac, hs, fun a h => by cases h⟩
    | some a =>
      dsimp only
      by_cases he : a = nodeID
      · rw [if_pos he]; subst he; exact ⟨hne, hmac, hs, rfl⟩
      rw [if_neg he]
      cases hl : m.nodes.lookup a with
      | none =>
        refine ⟨hne, hmac, hs, fun a' h => ?_⟩
        cases h; exact ⟨he, hl⟩
      | some anchor =>
        dsimp only
        by_cases hw : now - anchor.lastSeen < m.macActiveWindow
        · rw [if_pos hw]; exact ⟨hne, hmac, hs, a, anchor, rfl, he, hl, hw⟩
        · rw [if_neg hw]; exact ⟨hne, hmac, hs, rfl, he, anchor, hl, hw⟩

theorem recordMACLocked_preserves (hC : Closed A P I) (hA : A mac) {now : Int}
    (hP : m.recordMerges P nodeID mac now) (hI : I m) : I (m.recordMACLocked nodeID mac now) := by
  rw [recordMACLocked_eq]
  cases hn : m.nodes.lookup nodeID with
  | none => exact hI
  | some node =>
    have hk := noteMAC_kept mac hn
    have hI' := hC.kept hk hI
    have hP' := hP node hn
    have hspec := macCase_spec m nodeID mac now
    have htab : ∀ m' : Manager, ∀ id, Kept m' (m'.setAnchor id mac) :=
      fun m' id => Kept.of_nodes_eq rfl rfl rfl rfl
    dsimp only at hP' ⊢
    cases hc : m.macCase nodeID mac now with
    | skip => exact hI
    | note => exact hI'
    | anchor =>
      rw [hc] at hP'
      exact promoteNodeIDToMAC_preserves hC hA hP' (hC.kept (htab _ _) hI')
    | confirm =>
      rw [hc] at hP'
      exact promoteNodeIDToMAC_preserves hC hA hP' hI'
    | share =>
      rw [hc] at hP'
      have hks : Kept _ ((m.noteMAC nodeID mac node).shareMAC mac) :=
        Kept.of_nodes_eq (m := m.noteMAC nodeID mac node) rfl rfl rfl rfl
      exact demoteMACIdentity_preserves hC hP' (hC.kept hks hI')
    | readdress a =>
      rw [hc] at hP' hspec
      obtain ⟨-, -, -, -, hane, anchor, hl, -⟩ := hspec
      have hl' : (m.noteMAC nodeID mac node).nodes.lookup a = some anchor := by
        rw [noteMAC_lookup_ne hane]; exact hl
      refine promoteNodeIDToMAC_preserves hC hA hP'.2 (hC.kept (htab _ _) ?_)
      exact hC.merge hane (hC.admissible hI hn).1 ⟨anchor, hl'⟩ hP'.1 hI'

theorem recordEndpointMAC_preserves (hC : Closed A P I) (hA : mac ≠ "" → A mac) {ip : String}
    {now : Int} (hP : m.endpointMerges P ip mac now) (hI : I m) :
    I (m.recordEndpointMAC ip mac now) := by
  unfold recordEndpointMAC
  split
  · exact hI
  · rename_i hmac
    split
    · exact hI
    · rename_i id hl
      exact recordMACLocked_preserves hC (hA hmac) (hP hmac id hl) hI

/-! ## The hostname table -/

/-- A re-key to a MAC points names at that MAC only. -/
theorem promoteNodeIDToMAC_names {h id : String}
    (hl : (m.promoteNodeIDToMAC nodeID mac).hostnameToNodeID.lookup h = some id) :
    id = mac ∨ m.hostnameToNodeID.lookup h = some id := by
  unfold promoteNodeIDToMAC at hl
  split at hl
  · exact Or.inr hl
  split at hl
  · exact Or.inr hl
  split at hl
  · exact Or.inr hl
  rename_i node _
  split at hl
  · exact Or.inr hl
  split at hl
  · exact Or.inr hl
  dsimp only at hl
  generalize promotedHostname node nodeID = hostname at hl
  have herase : ∀ t : KeyedMap String String,
      (t.erase nodeID).lookup h = some id → t.lookup h = some id := by
    intro t ht
    rw [KeyedMap.lookup_erase_eq] at ht
    split at ht
    · cases ht
    · exact ht
  split at hl
  · rw [KeyedMap.lookup_insert_eq] at hl
    split at hl
    · exact Or.inl (Option.some.inj hl).symm
    · right
      split at hl
      · exact herase _ hl
      · exact hl
  · right
    split at hl
    · exact herase _ hl
    · exact hl

@[simp] theorem demoteMACIdentity_names (m : Manager) (mac : String) :
    (m.demoteMACIdentity mac).hostnameToNodeID = m.hostnameToNodeID := by
  unfold demoteMACIdentity
  split
  · rfl
  · dsimp only
    split <;> rfl

theorem recordMACLocked_names {now : Int} {h id : String}
    (hl : (m.recordMACLocked nodeID mac now).hostnameToNodeID.lookup h = some id) :
    id = mac ∨ m.hostnameToNodeID.lookup h = some id := by
  rw [recordMACLocked_eq] at hl
  cases hn : m.nodes.lookup nodeID with
  | none => rw [hn] at hl; exact Or.inr hl
  | some node =>
    obtain ⟨-, -, hnames, -⟩ := noteMAC_tables m nodeID mac node
    rw [hn] at hl
    dsimp only at hl
    cases hc : m.macCase nodeID mac now with
    | skip => rw [hc] at hl; exact Or.inr hl
    | note => rw [hc] at hl; exact Or.inr (hnames ▸ hl)
    | anchor =>
      rw [hc] at hl
      exact (promoteNodeIDToMAC_names hl).imp_right fun hl => hnames ▸ hl
    | confirm =>
      rw [hc] at hl
      exact (promoteNodeIDToMAC_names hl).imp_right fun hl => hnames ▸ hl
    | share =>
      rw [hc] at hl
      dsimp only at hl
      rw [demoteMACIdentity_names] at hl
      exact Or.inr (hnames ▸ hl)
    | readdress a =>
      rw [hc] at hl
      exact (promoteNodeIDToMAC_names hl).imp_right fun hl => hnames ▸ hl

theorem recordEndpointMAC_names {ip : String} {now : Int} {h id : String}
    (hl : (m.recordEndpointMAC ip mac now).hostnameToNodeID.lookup h = some id) :
    (mac ≠ "" ∧ id = mac) ∨ m.hostnameToNodeID.lookup h = some id := by
  unfold recordEndpointMAC at hl
  split at hl
  · exact Or.inr hl
  · rename_i hmac
    split at hl
    · exact Or.inr hl
    · exact (recordMACLocked_names hl).imp_left fun h => ⟨hmac, h⟩

/-! ## Counting an endpoint -/

/-- The node an endpoint is counted on, after the count. -/
theorem countEndpoint_nodes (m : Manager) (nodeID ip hostname : String) (bytes : Nat) (now : Int) :
    ∃ node, (m.countEndpoint nodeID ip hostname bytes now).nodes = m.nodes.insert nodeID node
      ∧ match m.nodes.lookup nodeID with
        | none => node.ip = nodeID ∧ node.ips = [ip] ∧ node.packetCount = 1
            ∧ node.byteCount = bytes
        | some n => node.ip = n.ip ∧ node.ips = n.ips ∧ node.packetCount = n.packetCount + 1
            ∧ node.byteCount = n.byteCount + bytes := by
  unfold countEndpoint
  dsimp only
  cases m.nodes.lookup nodeID with
  | none => exact ⟨_, rfl, rfl, rfl, rfl, rfl⟩
  | some n =>
    refine ⟨_, rfl, ?_⟩
    -- the lookup was just written, so the address is never appended
    have hip : ({ m with ipToNodeID := m.ipToNodeID.insert ip nodeID } : Manager).appendsIP nodeID
        ip = false := by
      unfold appendsIP
      simp [AList.lookup_insert]
    unfold seeNode
    rw [hip]
    simp only [Bool.false_eq_true, if_false, Bool.false_or]
    repeat' split
    all_goals exact ⟨rfl, rfl, rfl, rfl⟩

@[simp] theorem countEndpoint_ipToNodeID (m : Manager) (nodeID ip hostname : String) (bytes : Nat)
    (now : Int) :
    (m.countEndpoint nodeID ip hostname bytes now).ipToNodeID = m.ipToNodeID.insert ip nodeID := by
  unfold countEndpoint
  dsimp only
  split <;> rfl

/-- What an address resolves to when its endpoint is about to be counted. -/
theorem mergePrevious_ipToNodeID (m : Manager) (ip hostname nodeID a : String) :
    (m.mergePrevious ip hostname nodeID).ipToNodeID.lookup a
      = if m.ipToNodeID.lookup ip = none ∨ m.ipToNodeID.lookup ip = some "" then
          m.ipToNodeID.lookup a
        else (m.ipToNodeID.lookup a).map (repoint nodeID ((m.ipToNodeID.lookup ip).getD "")) := by
  have hk := (claimHostname_kept m ip hostname).ipTo
  unfold mergePrevious
  dsimp only
  cases hip : m.ipToNodeID.lookup ip with
  | none => simp [hk]
  | some k =>
    by_cases hkn : k = ""
    · subst hkn; simp [hk]
    · simp only [reduceCtorEq, Option.some.injEq, hkn, or_self, if_false, Option.getD_some]
      split
      · rw [mergeNodeInto_ipToNodeID, hk]
      · rename_i hg
        -- resolving to the same node already, repointing changes nothing
        have hg' : k = nodeID := by simpa [hkn] using hg
        rw [hk, hg']
        have hid : repoint nodeID nodeID = id := by
          funext x; unfold repoint; split
          · rename_i hx; exact hx.symm
          · rfl
        rw [hid, Option.map_id, id]

end Manager

end Etherchimp
