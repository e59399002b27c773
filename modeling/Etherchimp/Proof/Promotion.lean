import Etherchimp.Proof.Filing

/-!
# What a promotion does to a node's name

The first frame that shows the MAC of a named host promotes its node, and the name
is gone. Every later frame of the host does the same again: the name leads nowhere
after the promotion, so the node is filed under it anew and promoted anew.

Which nodes are spared can be read off the graph before the call and the packet.
`IngestCall.source` is the id the source ends up under once both endpoints are
filed, `IngestCall.Stays` says that this node cannot be promoted, and
`IngestCall.Folds` that recording the destination's MAC then folds it into the
destination's node. `afterSrcMAC_settled` proves of the code what these say. By the
invariant of `GivenNames` the name is there in the end exactly when the id is one.
-/

namespace Etherchimp

open Manager

variable {V : Heard} {m m' : Manager}

/-! ## Which nodes are promoted -/

section Settle

variable [RuneCase] {nodeID ip mac s : String} {now : Int}

omit [RuneCase] in
theorem promotable_iff {n : Node} (hl : m.nodes.lookup nodeID = some n) :
    m.Promotable nodeID ↔ nodeID ≠ "" ∧ ¬ isHostMAC nodeID ∧ n.isGroup = false := by
  unfold Promotable
  rw [hl]
  simp

omit [RuneCase] in
theorem Manager.Promotes.promotable (h : m.Promotes nodeID mac) : m.Promotable nodeID :=
  ⟨h.1, h.2.2.2.2.1, h.2.2.2.2.2⟩

omit [RuneCase] in
/-- An exclusive host MAC promotes what can be promoted. -/
theorem Manager.Promotable.promotes (h : m.Promotable nodeID) (hhost : isHostMAC mac)
    (hs : m.isShared mac = false) : m.Promotes nodeID mac :=
  ⟨h.1, fun he => h.2.1 (he ▸ hhost), hs, hhost, h.2.1, h.2.2⟩

/-- A promotion leaves an address alone that is on another node, or on one that cannot move. -/
theorem promote_leaves (hs : s = nodeID → ¬ m.Promotable nodeID)
    (hl : m.ipToNodeID.lookup ip = some s) :
    (m.promoteNodeIDToMAC nodeID mac).ipToNodeID.lookup ip = some s := by
  rcases promoteNodeIDToMAC_cases m nodeID mac with ⟨he, -⟩ | ⟨hp, hostname, hk, -⟩
  · rw [he]; exact hl
  · rw [hk.ipTo, mergeNodeInto_ipToNodeID, hl]
    exact congrArg some (if_neg fun he => hs he hp.promotable)

/-- Neither a note nor a merge into the node changes whether it can be promoted. -/
theorem promotable_noted {node : Node} (hn : m.nodes.lookup nodeID = some node) :
    (m.noteMAC nodeID mac node).Promotable nodeID ↔ m.Promotable nodeID := by
  obtain ⟨n', hl', hk⟩ := (noteMAC_namesKept mac hn).nodes.lookup' hn
  rw [promotable_iff hl', promotable_iff hn, hk.isGroup]

theorem promotable_merged {oldID hostname : String} {node : Node} (hne : oldID ≠ nodeID)
    (hn : m.nodes.lookup nodeID = some node) :
    (m.mergeNodeInto nodeID oldID hostname).Promotable nodeID ↔ m.Promotable nodeID := by
  have hl : ∃ n, (m.mergeNodeInto nodeID oldID hostname).nodes.lookup nodeID = some n
      ∧ n.isGroup = node.isGroup := by
    rw [mergeNodeInto_nodes hne, if_neg hne.symm, if_pos rfl, hn]
    cases m.nodes.lookup oldID with
    | none => exact ⟨_, rfl, rfl⟩
    | some o => exact ⟨_, rfl, rfl⟩
  obtain ⟨n, hl, hg⟩ := hl
  rw [promotable_iff hl, promotable_iff hn, hg]

/--
The node an address is on once `mac` is recorded on `nodeID`: its own, unless that
node is the quiet anchor of the MAC and is merged into `nodeID`.
-/
def holderAfter (m : Manager) (nodeID mac s : String) (now : Int) : String :=
  if m.macCase nodeID mac now = .readdress s then nodeID else s

/-- **Where the source ends when the destination's MAC is recorded.** -/
theorem recordMAC_holder (nodeID : String) (now : Int) (hmac : isHostMAC mac → V.mac mac)
    (h : NamesGiven V m) (hs : ¬ m.Promotable s) (hl : m.ipToNodeID.lookup ip = some s) :
    ∃ k, (m.recordMACLocked nodeID mac now).ipToNodeID.lookup ip = some k
      ∧ (V.IsName k ↔ ¬ m.Promotable (holderAfter m nodeID mac s now)
          ∧ V.IsName (holderAfter m nodeID mac s now)) := by
  have hspec := macCase_spec m nodeID mac now
  unfold holderAfter
  rw [recordMACLocked_eq]
  have hown : V.IsName s ↔ ¬ m.Promotable s ∧ V.IsName s := (and_iff_right hs).symm
  cases hn : m.nodes.lookup nodeID with
  | none =>
    have hskip : m.macCase nodeID mac now = .skip := by
      unfold macCase
      rw [hn]
      split <;> rfl
    rw [hskip, if_neg (by simp)]
    exact ⟨s, hl, hown⟩
  | some node =>
    have hip : (m.noteMAC nodeID mac node).ipToNodeID.lookup ip = some s := by
      rw [(noteMAC_kept mac hn).ipTo]
      exact hl
    have hstuck : s = nodeID → ¬ (m.noteMAC nodeID mac node).Promotable nodeID := by
      rintro rfl
      rw [promotable_noted hn]
      exact hs
    dsimp only
    cases hc : m.macCase nodeID mac now with
    | skip =>
      rw [if_neg (by simp)]
      exact ⟨s, hl, hown⟩
    | note =>
      rw [if_neg (by simp)]
      exact ⟨s, hip, hown⟩
    | anchor =>
      rw [if_neg (by simp)]
      exact ⟨s, promote_leaves (m := (m.noteMAC nodeID mac node).setAnchor nodeID mac) hstuck hip,
        hown⟩
    | confirm =>
      rw [if_neg (by simp)]
      exact ⟨s, promote_leaves hstuck hip, hown⟩
    | share =>
      rw [hc] at hspec
      have hvm := hmac hspec.2.1
      rw [if_neg (by simp)]
      have hshare : NamesGiven V ((m.noteMAC nodeID mac node).shareMAC mac) :=
        (h.kept (noteMAC_namesKept mac hn)).kept
          (NamesKept.of_nodes_eq (m := m.noteMAC nodeID mac node) rfl rfl rfl)
      dsimp only
      rcases demoteMACIdentity_cases ((m.noteMAC nodeID mac node).shareMAC mac) mac with
        he | ⟨old, newID, hostname, hlo, hf, -, hnm, hk, -⟩
      · rw [he]
        exact ⟨s, hip, hown⟩
      · rw [hk.ipTo, mergeNodeInto_ipToNodeID]
        refine ⟨repoint newID mac s, ?_, ?_⟩
        · show ((m.noteMAC nodeID mac node).ipToNodeID.lookup ip).map _ = _
          rw [hip]
          rfl
        · unfold repoint
          split
          · -- the demoted node is keyed by an address again
            rename_i he
            have hnew : V.ip newID := (hshare.nodes hlo).ips newID (List.mem_of_find?_eq_some hf)
            exact ⟨fun hk => absurd hnew hk.1, fun hk => absurd (he ▸ hvm) hk.2.2⟩
          · exact hown
    | readdress a =>
      rw [hc] at hspec
      obtain ⟨hid, hhost, hex, -, hane, -⟩ := hspec
      obtain ⟨n', hl', -⟩ := (noteMAC_namesKept mac hn).nodes.lookup' hn
      have hsame : ((m.noteMAC nodeID mac node).mergeNodeInto nodeID a
          node.hostname).Promotable nodeID ↔ m.Promotable nodeID :=
        (promotable_merged hane hl').trans (promotable_noted hn)
      have hto : ((m.noteMAC nodeID mac node).mergeNodeInto nodeID a
          node.hostname).ipToNodeID.lookup ip = some (repoint nodeID a s) := by
        rw [mergeNodeInto_ipToNodeID, hip]
        rfl
      have hexcl : ((m.noteMAC nodeID mac node).mergeNodeInto nodeID a
          node.hostname).isShared mac = false := by
        unfold isShared at hex ⊢
        rw [mergeNodeInto_macShared, (noteMAC_tables m nodeID mac node).1]
        exact hex
      dsimp only
      generalize (m.noteMAC nodeID mac node).mergeNodeInto nodeID a node.hostname = merged
        at hsame hto hexcl
      by_cases has : a = s
      · rw [if_pos (congrArg MACCase.readdress has)]
        rw [repoint, if_pos has.symm] at hto
        by_cases hp : m.Promotable nodeID
        · -- the node the source is folded into is promoted in turn
          have hprom : (merged.setAnchor nodeID mac).Promotes nodeID mac :=
            (show (merged.setAnchor nodeID mac).Promotable nodeID from hsame.mpr hp).promotes hhost
              hexcl
          refine ⟨mac, (anchored_of_promotes hprom hto).resolves, ?_⟩
          exact ⟨fun hk => absurd (hmac hhost) hk.2, fun hk => absurd hp hk.1⟩
        · refine ⟨nodeID, promote_leaves (m := merged.setAnchor nodeID mac)
            (fun _ hpm => hp (hsame.mp hpm)) hto, ?_⟩
          exact (and_iff_right hp).symm
      · rw [if_neg (by simpa using has)]
        rw [repoint, if_neg (fun he => has he.symm)] at hto
        refine ⟨s, promote_leaves (m := merged.setAnchor nodeID mac) ?_ hto, hown⟩
        rintro rfl hpm
        exact hs (hsame.mp hpm)

end Settle

/-! ## The name after a call -/

/-- What the packets of a run bring. -/
def heard (calls : List IngestCall) : Heard where
  ip k := ∃ c ∈ calls, k = c.pkt.srcIP ∨ k = c.pkt.dstIP
  mac k := isHostMAC k ∧ ∃ c ∈ calls, k = c.pkt.srcMAC ∨ k = c.pkt.dstMAC
  name ip h := h ≠ "" ∧ ∃ c ∈ calls,
    ip = c.pkt.srcIP ∧ h = nodeHostname c.pkt.srcIP c.srcHostname
      ∨ ip = c.pkt.dstIP ∧ h = nodeHostname c.pkt.dstIP c.dstHostname

/--
The node `ip` is on has a resolved name, given for an address of the node, which is
none of its addresses and not the MAC it is keyed by.
-/
def Manager.KeepsName (m : Manager) (V : Heard) (ip : String) : Prop :=
  ∃ id n, m.ipToNodeID.lookup ip = some id ∧ m.nodes.lookup id = some n
    ∧ (n.hostname ≠ "" ∧ ¬ V.ip n.hostname)
    ∧ (∃ x, m.ipToNodeID.lookup x = some id ∧ V.name x n.hostname)
    ∧ n.hostname ∉ n.ips ∧ ¬ (V.mac id ∧ n.hostname = id)

/-- The call brings no empty address. -/
def IngestCall.Addressed (c : IngestCall) : Prop := c.pkt.srcIP ≠ "" ∧ c.pkt.dstIP ≠ ""

theorem heard_clean {calls : List IngestCall} (h : ∀ c ∈ calls, c.Addressed) :
    (heard calls).Clean where
  ip := by
    rintro k ⟨c, hc, rfl | rfl⟩
    · exact (h c hc).1
    · exact (h c hc).2
  mac hk := hk.1

theorem heard_within {calls : List IngestCall} {c : IngestCall} (hc : c ∈ calls) :
    c.Within (heard calls) where
  srcIP := ⟨c, hc, Or.inl rfl⟩
  dstIP := ⟨c, hc, Or.inr rfl⟩
  srcName hne := ⟨hne, c, hc, Or.inl ⟨rfl, rfl⟩⟩
  dstName hne := ⟨hne, c, hc, Or.inr ⟨rfl, rfl⟩⟩
  srcMAC hm := ⟨hm, c, hc, Or.inl rfl⟩
  dstMAC hm := ⟨hm, c, hc, Or.inr rfl⟩

/-- The name is there exactly when it is the id. -/
theorem keepsName_iff {ip k : String} (h : NamesGiven V m)
    (hl : m.ipToNodeID.lookup ip = some k) : m.KeepsName V ip ↔ V.IsName k := by
  constructor
  · rintro ⟨id, n, hid, hn, ⟨hne, haddr⟩, -, -, hown⟩
    cases hl.symm.trans hid
    rcases (h.nodes hn).name with he | ⟨-, he | he⟩
    · exact ⟨fun hk => haddr (he ▸ hk), fun hk => hown ⟨hk, he⟩⟩
    · exact absurd he hne
    · exact absurd he haddr
  · intro hk
    obtain ⟨n, hn⟩ := h.live hl
    have hnn := h.nodes hn
    have he : n.hostname = k := hnn.name.eq hk
    refine ⟨k, n, hl, hn, ⟨he ▸ hnn.id, he ▸ hk.1⟩, ?_, ?_, fun hc => hk.2 hc.1⟩
    · rw [he]
      exact h.given hn hk
    · intro hin
      exact hk.1 (hnn.ips k (he ▸ hin))

section Call

variable [RuneCase]

theorem recordEndpointMAC_eq {ip mac k : String} {now : Int}
    (hl : m.ipToNodeID.lookup ip = some k) :
    m.recordEndpointMAC ip mac now = m.recordMACLocked k mac now := by
  unfold Manager.recordEndpointMAC
  rw [hl]
  dsimp only
  split
  · rename_i he
    rw [recordMACLocked, if_pos]
    rw [he]
    exact Or.inr (by decide)
  · rfl

/-! ## Where the source goes, read off the graph before the call -/

namespace IngestCall

variable (m : Manager) (c : IngestCall)

/-- The id the source is filed under, and the one its address was on. -/
def srcID : String := m.nodeIDFor c.pkt.srcIP (nodeHostname c.pkt.srcIP c.srcHostname)

def srcPrev : String := m.previousID c.pkt.srcIP (c.srcID m)

/-- The id the destination is filed under, and the one its address is on by then. -/
def dstID : String := m.nodeIDFor c.pkt.dstIP (nodeHostname c.pkt.dstIP c.dstHostname)

def dstPrev : String :=
  if c.pkt.dstIP = c.pkt.srcIP then c.srcID m
  else ((m.ipToNodeID.lookup c.pkt.dstIP).map (repoint (c.srcID m) (c.srcPrev m))).getD (c.dstID m)

/-- The source's node is a group node once the source is filed. -/
def srcGroup : Bool :=
  ((m.read Node.isGroup (c.srcID m)).or (m.read Node.isGroup (c.srcPrev m))).getD false
    || (groupAddressLabel c.pkt.srcIP).isSome

/-- What the nodes are by then: the source's own, none where it was, the others as before. -/
def groupThen (k : String) : Option Bool :=
  if k = c.srcID m then some (c.srcGroup m)
  else if k = c.srcPrev m then none
  else m.read Node.isGroup k

/-- The destination's node is a group node once both are filed. -/
def dstGroup : Bool :=
  ((c.groupThen m (c.dstID m)).or (c.groupThen m (c.dstPrev m))).getD false
    || (groupAddressLabel c.pkt.dstIP).isSome

/-- The id the source is under once both are filed: the destination may have taken its node. -/
def source : String := repoint (c.dstID m) (c.dstPrev m) (c.srcID m)

/-- The source's node can never be promoted: its id passes for a MAC, or it is a group node. -/
def Stays : Prop :=
  isHostMAC (c.source m)
    ∨ (if c.source m = c.dstID m then c.dstGroup m else c.srcGroup m) = true

instance : Decidable (c.Stays m) := inferInstanceAs (Decidable (_ ∨ _))

/-- The id the source is under once its MAC is recorded. -/
def key : String := if c.Stays m then c.source m else c.pkt.srcMAC

/-- The node a MAC is anchored at once both endpoints are filed. -/
def filedAnchor (mac : String) : Option String :=
  (m.macToNodeID.lookup mac).map fun k =>
    repoint (c.dstID m) (c.dstPrev m) (repoint (c.srcID m) (c.srcPrev m) k)

/-- The anchor of the source's MAC, which is merged into the source's node. -/
def srcAnchor : String := (c.filedAnchor m c.pkt.srcMAC).getD (c.source m)

/-- The anchor of the destination's MAC once the source's has been recorded. -/
def dstAnchor : Option String :=
  if c.pkt.dstMAC = c.pkt.srcMAC then some (c.key m)
  else (c.filedAnchor m c.pkt.dstMAC).map fun k =>
    repoint (c.key m) (c.source m) (repoint (c.source m) (c.srcAnchor m) k)

/--
When the node under `key` was seen last. A node that is under the source's MAC
already, and is none of those merged by then, keeps its own time.
-/
def keySeen : Int :=
  if c.Stays m ∨ c.pkt.srcMAC = c.srcAnchor m ∨ c.pkt.srcMAC = c.srcPrev m
      ∨ c.pkt.srcMAC = c.dstPrev m then
    c.clock.srcSeen
  else (m.read Node.lastSeen c.pkt.srcMAC).getD c.clock.srcSeen

/--
Recording the destination's MAC folds the source's node into the destination's:
they are two nodes, and the source's is the quiet anchor of that MAC.
-/
def Folds : Prop :=
  c.dstID m ∉ [c.source m, c.srcAnchor m, c.key m]
    ∧ isHostMAC c.pkt.dstMAC ∧ m.isShared c.pkt.dstMAC = false
    ∧ c.dstAnchor m = some (c.key m)
    ∧ ¬ c.clock.dstMAC - c.keySeen m < m.macActiveWindow

instance : Decidable (c.Folds m) := inferInstanceAs (Decidable (_ ∧ _))

/-- The node the source ends up on is filed under a name and is never promoted. -/
def Spared (V : Heard) : Prop :=
  if c.Folds m then (isHostMAC (c.dstID m) ∨ c.dstGroup m = true) ∧ V.IsName (c.dstID m)
  else c.Stays m ∧ V.IsName (c.source m)

end IngestCall

variable {c : IngestCall}

/-- Both endpoints are filed, one after the other. -/
theorem afterEndpoints_files (h : NamesGiven V m) (h₁ : NamesGiven V (c.afterSrc m)) :
    Files m (c.afterSrc m) c.pkt.srcIP (c.srcPrev m) (c.srcID m) c.clock.srcSeen
      ∧ Files (c.afterSrc m) (c.afterEndpoints m) c.pkt.dstIP (c.dstPrev m) (c.dstID m)
          c.clock.dstSeen := by
  have hlive : ∀ {m : Manager} {ip : String}, NamesGiven V m →
      m.ipToNodeID.lookup ip ≠ some "" := by
    intro m ip h he
    obtain ⟨n, hn⟩ := h.live he
    exact (h.nodes hn).id rfl
  have hsrc : Files m (c.afterSrc m) c.pkt.srcIP (c.srcPrev m) (c.srcID m) c.clock.srcSeen := by
    have hf := addOrUpdateNode_files (m := { m with dirty := true }) c.pkt.srcIP c.srcHostname
      c.pkt.length c.clock.srcSeen (hlive (m := m) h)
    exact ⟨hf.ipTo, hf.macTo, hf.shared, hf.window, hf.group, hf.seen⟩
  refine ⟨hsrc, ?_⟩
  have hdst := addOrUpdateNode_files (m := c.afterSrc m) c.pkt.dstIP c.dstHostname c.pkt.length
    c.clock.dstSeen (hlive h₁)
  have hid : (c.afterSrc m).nodeIDFor c.pkt.dstIP (nodeHostname c.pkt.dstIP c.dstHostname)
      = c.dstID m := addOrUpdateNode_nodeIDFor { m with dirty := true } ..
  have hprev : (c.afterSrc m).previousID c.pkt.dstIP (c.dstID m) = c.dstPrev m := by
    unfold previousID IngestCall.dstPrev
    rw [hsrc.ipTo]
    split <;> rfl
  dsimp only at hdst
  rw [hid, hprev] at hdst
  exact hdst

/-- What the call has done to the tables and the nodes once both endpoints are filed. -/
structure BothFiled (m m' : Manager) (c : IngestCall) : Prop where
  srcIP : m'.ipToNodeID.lookup c.pkt.srcIP = some (c.source m)
  dstIP : m'.ipToNodeID.lookup c.pkt.dstIP = some (c.dstID m)
  macTo : ∀ a, m'.macToNodeID.lookup a = c.filedAnchor m a
  shared : m'.macShared = m.macShared
  window : m'.macActiveWindow = m.macActiveWindow
  source : m'.read Node.isGroup (c.source m)
    = some (if c.source m = c.dstID m then c.dstGroup m else c.srcGroup m)
  dst : m'.read Node.isGroup (c.dstID m) = some (c.dstGroup m)
  seen : ∀ k, m'.read Node.lastSeen k
    = if k = c.dstID m then some c.clock.dstSeen
      else if k = c.dstPrev m then none
      else if k = c.srcID m then some c.clock.srcSeen
      else if k = c.srcPrev m then none
      else m.read Node.lastSeen k

omit [RuneCase] in
/-- The source's own id, unless the destination took its node. -/
theorem source_cases (m : Manager) (c : IngestCall) :
    c.source m = c.dstID m ∨ c.source m = c.srcID m ∧ c.srcID m ≠ c.dstPrev m := by
  unfold IngestCall.source repoint
  split
  · exact Or.inl rfl
  · rename_i h
    exact Or.inr ⟨rfl, h⟩

theorem afterEndpoints_filed (h : NamesGiven V m) (h₁ : NamesGiven V (c.afterSrc m)) :
    BothFiled m (c.afterEndpoints m) c := by
  obtain ⟨hsrc, hdst⟩ := afterEndpoints_files h h₁
  have hgroup : ∀ k, (c.afterSrc m).read Node.isGroup k = c.groupThen m k := hsrc.group
  have hown : (c.afterEndpoints m).read Node.isGroup (c.dstID m) = some (c.dstGroup m) := by
    rw [hdst.group, if_pos rfl, hgroup, hgroup]
    rfl
  refine ⟨?_, ?_, fun a => ?_, hdst.shared.trans hsrc.shared, hdst.window.trans hsrc.window, ?_,
    hown, fun k => ?_⟩
  · rw [hdst.ipTo, hsrc.ipTo, if_pos rfl]
    split
    · rename_i he
      unfold IngestCall.source IngestCall.dstPrev
      rw [if_pos he.symm, repoint_old]
    · rfl
  · rw [hdst.ipTo, if_pos rfl]
  · rw [hdst.macTo, hsrc.macTo, Option.map_map]
    rfl
  · by_cases he : c.source m = c.dstID m
    · rw [if_pos he, he]
      exact hown
    · rcases source_cases m c with h' | ⟨h', hne⟩
      · exact absurd h' he
      · rw [if_neg he, hdst.group, if_neg he, h', if_neg hne, hgroup]
        exact if_pos rfl
  · rw [hdst.seen, hsrc.seen]

/-- What the call has done to the source once its exclusive MAC is recorded as well. -/
structure Settled (m m' : Manager) (c : IngestCall) : Prop where
  srcIP : m'.ipToNodeID.lookup c.pkt.srcIP = some (c.key m)
  dstIP : m'.ipToNodeID.lookup c.pkt.dstIP
    = some (if c.dstID m ∈ [c.source m, c.srcAnchor m, c.key m] then c.key m else c.dstID m)
  anchor : m'.macToNodeID.lookup c.pkt.dstMAC = c.dstAnchor m
  shared : m'.macShared = m.macShared
  window : m'.macActiveWindow = m.macActiveWindow
  stuck : ¬ m'.Promotable (c.key m)
  dst : c.dstID m ∉ [c.source m, c.srcAnchor m, c.key m] →
    m'.read Node.isGroup (c.dstID m) = some (c.dstGroup m)
      ∧ m'.read Node.lastSeen (c.key m) = some (c.keySeen m)

omit [RuneCase] in
theorem settledID_filed {m' : Manager} (h : BothFiled m m' c) (hid : c.source m ≠ "") :
    m'.settledID (c.source m) c.pkt.srcMAC = c.key m := by
  unfold settledID IngestCall.key IngestCall.Stays
  simp only [promotable_read, h.source]
  by_cases hm : isHostMAC (c.source m)
  · simp [hm]
  · by_cases hg : (if c.source m = c.dstID m then c.dstGroup m else c.srcGroup m) = true
    · simp [hm, hg]
    · simp [hid, hm, hg]

section Moved

variable {m₀ m₁ m₂ : Manager} (hfiled : BothFiled m m₀ c)
  (hfold : Moves (m₀.setAnchor (c.srcAnchor m) c.pkt.srcMAC) m₁ (c.srcAnchor m) (c.source m))
  (hmove : Moves m₁ m₂ (c.source m) (c.key m))

include hfiled hfold hmove

omit hmove in
theorem moved_source : m₁.read Node.isGroup (c.source m)
    = some (if c.source m = c.dstID m then c.dstGroup m else c.srcGroup m) :=
  hfold.read_new lasting_isGroup hfiled.source

omit hfiled in
/-- Where the two moves take an id. -/
theorem moved_ipTo (ip : String) : m₂.ipToNodeID.lookup ip
    = (m₀.ipToNodeID.lookup ip).map fun k =>
        if k ∈ [c.source m, c.srcAnchor m, c.key m] then c.key m else k := by
  rw [hmove.ipTo, hfold.ipTo, Option.map_map]
  refine Option.map_congr fun k _ => ?_
  rw [Function.comp_apply, repoint_twice]

theorem moved_anchor : m₂.macToNodeID.lookup c.pkt.dstMAC = c.dstAnchor m := by
  have hset : (m₀.setAnchor (c.srcAnchor m) c.pkt.srcMAC).macToNodeID.lookup c.pkt.dstMAC
      = if c.pkt.dstMAC = c.pkt.srcMAC then some (c.srcAnchor m)
        else c.filedAnchor m c.pkt.dstMAC := by
    unfold setAnchor
    dsimp only
    rw [KeyedMap.lookup_insert_eq, hfiled.macTo]
  unfold IngestCall.dstAnchor
  rw [hmove.macTo, hfold.macTo, hset]
  by_cases he : c.pkt.dstMAC = c.pkt.srcMAC
  · rw [if_pos he, if_pos he, Option.map_some, Option.map_some, repoint_twice, if_pos (by simp)]
  · rw [if_neg he, if_neg he, Option.map_map, Function.comp_def]

theorem moved_stuck (hhost : isHostMAC c.pkt.srcMAC) : ¬ m₂.Promotable (c.key m) := by
  rw [promotable_read]
  rintro ⟨-, hnh, hg⟩
  by_cases hst : c.Stays m
  · have hk : c.key m = c.source m := if_pos hst
    rw [hk] at hmove hnh hg
    rw [hmove.read_new lasting_isGroup (moved_source hfiled hfold)] at hg
    rcases hst with hm | hgr
    · exact hnh hm
    · rw [hgr] at hg
      cases hg
  · have hk : c.key m = c.pkt.srcMAC := if_neg hst
    exact hnh (hk ▸ hhost)

/-- The source's node keeps its time, or takes that of the node under its MAC. -/
theorem moved_seen (hhost : isHostMAC c.pkt.srcMAC) (hds : c.dstID m ≠ c.source m)
    (hdk : c.dstID m ≠ c.key m) : m₂.read Node.lastSeen (c.key m) = some (c.keySeen m) := by
  obtain ⟨hsrc, hne⟩ := (source_cases m c).resolve_left hds.symm
  have hown : m₁.read Node.lastSeen (c.source m) = some c.clock.srcSeen := by
    refine hfold.read_new lasting_lastSeen ((hfiled.seen _).trans ?_)
    rw [if_neg hds.symm, hsrc, if_neg hne, if_pos rfl]
  unfold IngestCall.keySeen
  by_cases hst : c.Stays m
  · have hk : c.key m = c.source m := if_pos hst
    rw [hk] at hmove ⊢
    rw [hmove.read_new lasting_lastSeen hown, if_pos (Or.inl hst)]
  have hk : c.key m = c.pkt.srcMAC := if_neg hst
  have hms : c.pkt.srcMAC ≠ c.source m := fun he => hst (Or.inl (he ▸ hhost))
  rw [hk] at hmove hdk ⊢
  have hkey := hmove.read lasting_lastSeen c.pkt.srcMAC
  rw [if_neg hms.symm, if_neg hms, if_pos rfl, hown] at hkey
  rw [hkey]
  by_cases ha : c.pkt.srcMAC = c.srcAnchor m
  · have hnone := hfold.read lasting_lastSeen c.pkt.srcMAC
    rw [if_neg (fun he => hms (ha.trans he)), if_pos ha] at hnone
    rw [hnone, if_pos (Or.inr (Or.inl ha))]
    rfl
  have hthen := hfiled.seen c.pkt.srcMAC
  rw [if_neg hdk.symm] at hthen
  rw [hfold.read_other lasting_lastSeen ha hms]
  show Option.or (m₀.read Node.lastSeen c.pkt.srcMAC) _ = _
  rw [hthen]
  by_cases hp : c.pkt.srcMAC = c.dstPrev m
  · rw [if_pos hp, if_pos (Or.inr (Or.inr (Or.inr hp)))]
    rfl
  rw [if_neg hp, if_neg fun he => hms (he.trans hsrc.symm)]
  by_cases hq : c.pkt.srcMAC = c.srcPrev m
  · rw [if_pos hq, if_pos (Or.inr (Or.inr (Or.inl hq)))]
    rfl
  · rw [if_neg hq, if_neg (by simp [hst, ha, hp, hq])]
    cases m.read Node.lastSeen c.pkt.srcMAC <;> rfl

theorem settled_of_moves (hhost : isHostMAC c.pkt.srcMAC) : Settled m m₂ c where
  srcIP := by
    rw [moved_ipTo hfold hmove, hfiled.srcIP, Option.map_some, if_pos (by simp)]
  dstIP := by
    rw [moved_ipTo hfold hmove, hfiled.dstIP, Option.map_some]
  anchor := moved_anchor hfiled hfold hmove
  shared := (hmove.shared.trans hfold.shared).trans hfiled.shared
  window := (hmove.window.trans hfold.window).trans hfiled.window
  stuck := moved_stuck hfiled hfold hmove hhost
  dst hdst := by
    simp only [List.mem_cons, List.not_mem_nil, or_false, not_or] at hdst
    obtain ⟨hds, hda, hdk⟩ := hdst
    refine ⟨?_, moved_seen hfiled hfold hmove hhost hds hdk⟩
    rw [hmove.read_other lasting_isGroup hds hdk, hfold.read_other lasting_isGroup hda hds]
    exact hfiled.dst

end Moved

/-- **The source's MAC, recorded after both endpoints, does what `key` and `Stays` say.** -/
theorem afterSrcMAC_settled (hanchors : AnchorsLive (c.afterEndpoints m))
    (h : NamesGiven V m) (h₁ : NamesGiven V (c.afterSrc m)) (h₂ : NamesGiven V (c.afterEndpoints m))
    (hhost : isHostMAC c.pkt.srcMAC) (hbefore : m.isShared c.pkt.srcMAC = false)
    (hafter : (c.apply m).isShared c.pkt.srcMAC = false) : Settled m (c.afterSrcMAC m) c := by
  have hfiled := afterEndpoints_filed h h₁
  obtain ⟨n, hn⟩ := h₂.live hfiled.srcIP
  have hid : c.source m ≠ "" := (h₂.nodes hn).id
  have hshared : (c.afterSrcMAC m).isShared c.pkt.srcMAC = false := by
    by_contra hs
    rw [Bool.not_eq_false] at hs
    have h4 : (c.afterMACs m).isShared c.pkt.srcMAC = true := isShared_recordEndpointMAC hs
    rw [isShared_eq (apply_tables m c).1, h4] at hafter
    cases hafter
  have hanchor : (c.afterEndpoints m).anchorID c.pkt.srcMAC (c.source m) = c.srcAnchor m := by
    unfold anchorID IngestCall.srcAnchor
    rw [hfiled.macTo]
  unfold IngestCall.afterSrcMAC at hshared ⊢
  rw [recordEndpointMAC_eq hfiled.srcIP] at hshared ⊢
  obtain ⟨m₁, hfold, hmove⟩ := recordMAC_moves hanchors hhost hid
    ((isShared_eq hfiled.shared _).trans hbefore) hshared ⟨n, hn⟩
  rw [settledID_filed hfiled hid] at hmove
  rw [hanchor] at hfold
  exact settled_of_moves hfiled hfold hmove hhost

/-! ## The name after the call -/

omit [RuneCase] in
/-- The quiet anchor of a MAC, exactly when `recordMACLocked` takes it for one. -/
theorem macCase_readdress_iff {nodeID mac a : String} {now : Int} :
    m.macCase nodeID mac now = .readdress a ↔ nodeID ≠ "" ∧ isHostMAC mac
      ∧ (∃ n, m.nodes.lookup nodeID = some n) ∧ m.isShared mac = false
      ∧ m.macToNodeID.lookup mac = some a ∧ a ≠ nodeID
      ∧ ∃ seen, m.read Node.lastSeen a = some seen ∧ ¬ now - seen < m.macActiveWindow := by
  constructor
  · intro hc
    have hspec := macCase_spec m nodeID mac now
    rw [hc] at hspec
    obtain ⟨hid, hmac, hs, ha, hne, anchor, hl, hq⟩ := hspec
    refine ⟨hid, hmac, ?_, hs, ha, hne, anchor.lastSeen, read_eq hl, hq⟩
    cases hn : m.nodes.lookup nodeID with
    | some n => exact ⟨n, rfl⟩
    | none =>
      unfold macCase at hc
      rw [hn] at hc
      split at hc <;> cases hc
  · rintro ⟨hid, hmac, ⟨n, hn⟩, hs, ha, hne, seen, hl, hq⟩
    obtain ⟨anchor, hla, rfl⟩ := Option.map_eq_some_iff.mp hl
    unfold macCase
    rw [if_neg (by simp [hid, hmac]), hn]
    dsimp only
    rw [if_neg (by simp [hs]), ha]
    dsimp only
    rw [if_neg hne, hla]
    exact if_neg hq

omit [RuneCase] in
/-- The destination's MAC folds the settled source's node exactly when `Folds` says so. -/
theorem folds_iff {m' : Manager} (h : Settled m m' c) (hid : c.dstID m ≠ "")
    (hlive : ∀ {k}, m'.ipToNodeID.lookup c.pkt.dstIP = some k →
      ∃ n, m'.nodes.lookup k = some n) {k : String}
    (hk : m'.ipToNodeID.lookup c.pkt.dstIP = some k) :
    m'.macCase k c.pkt.dstMAC c.clock.dstMAC = .readdress (c.key m) ↔ c.Folds m := by
  have hshared := isShared_eq h.shared c.pkt.dstMAC
  have hkd := hk.symm.trans h.dstIP
  rw [macCase_readdress_iff, hshared, h.anchor, h.window]
  unfold IngestCall.Folds
  by_cases hd : c.dstID m ∈ [c.source m, c.srcAnchor m, c.key m]
  · rw [if_pos hd, Option.some.injEq] at hkd
    exact ⟨fun hc => absurd hkd.symm hc.2.2.2.2.2.1, fun hc => absurd hd hc.1⟩
  · rw [if_neg hd, Option.some.injEq] at hkd
    rw [hkd, (h.dst hd).2]
    have hne : c.key m ≠ c.dstID m := fun he => hd (he ▸ by simp)
    constructor
    · rintro ⟨-, hmac, -, hs, ha, -, seen, he, hq⟩
      rw [← Option.some.inj he] at hq
      exact ⟨hd, hmac, hs, ha, hq⟩
    · rintro ⟨-, hmac, hs, ha, hq⟩
      exact ⟨hid, hmac, hkd ▸ hlive hk, hs, ha, hne, c.keySeen m, rfl, hq⟩

/-- After every run, the source keeps its name exactly when its node is `Spared`. -/
theorem keepsName_ingest_iff (hV : V.Clean) (hc : c.Within V) (hanchors : AnchorsLive m)
    (h : NamesGiven V m) (hhost : isHostMAC c.pkt.srcMAC)
    (hbefore : m.isShared c.pkt.srcMAC = false)
    (hafter : (c.apply m).isShared c.pkt.srcMAC = false) :
    (c.apply m).KeepsName V c.pkt.srcIP ↔ c.Spared m V := by
  have h₀ : NamesGiven V { m with dirty := true } :=
    h.kept (NamesKept.of_nodes_eq (m := m) rfl rfl rfl)
  have h₁ : NamesGiven V (c.afterSrc m) := h₀.addOrUpdateNode hV hc.srcIP hc.srcName
  have hanchors₂ : AnchorsLive (c.afterEndpoints m) :=
    (AnchorsLive.addOrUpdateNode (m := { m with dirty := true })
      ⟨hanchors.keyed, hanchors.anchored⟩).addOrUpdateNode
  have hset := afterSrcMAC_settled hanchors₂ h h₁ (h.afterEndpoints hV hc) hhost hbefore hafter
  have h₃ := h.afterSrcMAC hV hc
  have hid : c.dstID m ≠ "" := nodeIDFor_ne_empty hV hc.dstIP h
  obtain ⟨d, hd⟩ : ∃ d, (c.afterSrcMAC m).ipToNodeID.lookup c.pkt.dstIP = some d :=
    ⟨_, hset.dstIP⟩
  have hfolds := folds_iff hset hid h₃.live hd
  obtain ⟨k, hk, hiff⟩ := recordMAC_holder d c.clock.dstMAC hc.dstMAC h₃ hset.stuck hset.srcIP
  have hend : (c.apply m).ipToNodeID.lookup c.pkt.srcIP = some k := by
    rw [(IngestCall.afterMACs_namesKept m c).ipTo]
    unfold IngestCall.afterMACs
    rw [recordEndpointMAC_eq hd]
    exact hk
  rw [keepsName_iff (h.ingest hV hc) hend, hiff]
  unfold holderAfter IngestCall.Spared
  by_cases hf : c.Folds m
  · have hdst : d = c.dstID m := by
      have := hd.symm.trans hset.dstIP
      rwa [if_neg hf.1, Option.some.injEq] at this
    rw [if_pos (hfolds.mpr hf), if_pos hf, hdst, promotable_read, (hset.dst hf.1).1]
    by_cases hm : isHostMAC (c.dstID m)
    · simp [hm]
    · simp [hm, hid]
  · rw [if_neg fun hc => hf (hfolds.mp hc), if_neg hf, and_iff_right hset.stuck]
    unfold IngestCall.key
    by_cases hst : c.Stays m
    · rw [if_pos hst, and_iff_right hst]
    · rw [if_neg hst]
      exact ⟨fun hn => absurd (hc.srcMAC hhost) hn.2, fun hn => absurd hn.1 hst⟩

/-- Every anchor is live after every run. -/
theorem anchorsLive_ingestAll (calls : List IngestCall) : AnchorsLive (ingestAll calls) :=
  Run.invariant (P := AnchorsLive) ⟨fun _ _ h => (by cases h), fun _ _ h => (by cases h)⟩
    (fun _ c h _ => h.ingest c) (Run.guarded_true newManager calls)

/--
**A source keeps its name exactly when its node is filed under a name and spared.**
After every run of calls, the next call leaves the resolved name on the node of its
source if and only if `Spared` holds of the graph before it and of the packet.
-/
theorem promotion_keepsName_iff (calls : List IngestCall) (c : IngestCall)
    (haddr : ∀ c' ∈ calls ++ [c], c'.Addressed) (hhost : isHostMAC c.pkt.srcMAC)
    (hbefore : (ingestAll calls).isShared c.pkt.srcMAC = false)
    (hafter : (ingestAll (calls ++ [c])).isShared c.pkt.srcMAC = false) :
    (ingestAll (calls ++ [c])).KeepsName (heard (calls ++ [c])) c.pkt.srcIP
      ↔ c.Spared (ingestAll calls) (heard (calls ++ [c])) := by
  have hV := heard_clean haddr
  have hw : ∀ c' ∈ calls, c'.Within (heard (calls ++ [c])) :=
    fun c' hc => heard_within (List.mem_append_left _ hc)
  have hc : c.Within (heard (calls ++ [c])) :=
    heard_within (List.mem_append_right _ (List.mem_singleton_self c))
  have hlast : ingestAll (calls ++ [c]) = c.apply (ingestAll calls) := Run.exec_concat ..
  rw [hlast] at hafter ⊢
  exact keepsName_ingest_iff hV hc (anchorsLive_ingestAll calls) (namesGiven_run hV hw) hhost
    hbefore hafter

end Call

/-! ## A host that loses its name, and one that keeps it -/

/-- A packet of a host with a resolved name, in a frame of its own MAC. -/
def namedPacket (hostname : String) : IngestCall where
  pkt := { srcIP := "10.0.0.5", dstIP := "8.8.8.8", srcMAC := "aa:bb:cc:00:11:22", length := 60 }
  srcHostname := hostname

/-- The first packet of a host named `laptop.lan` leaves it named after its address. -/
theorem promotion_losesName :
    ¬ ∀ (calls : List IngestCall) (c : IngestCall), (∀ c' ∈ calls ++ [c], c'.Addressed) →
        groupAddressLabel c.pkt.srcIP = none → ¬ isHostMAC c.pkt.srcIP → isHostMAC c.pkt.srcMAC →
        (ingestAll calls).isShared c.pkt.srcMAC = false →
        (ingestAll (calls ++ [c])).isShared c.pkt.srcMAC = false →
        c.srcHostname ≠ "" → c.srcHostname ≠ c.pkt.srcIP →
        ¬ (heard (calls ++ [c])).ip c.srcHostname →
        (ingestAll (calls ++ [c])).KeepsName (heard (calls ++ [c])) c.pkt.srcIP := by
  intro h
  have haddr : ∀ c' ∈ [] ++ [namedPacket "laptop.lan"], c'.Addressed := by
    intro c' hc
    rw [List.mem_singleton.mp hc]
    exact ⟨by decide, by decide⟩
  have hname : ¬ (heard ([] ++ [namedPacket "laptop.lan"])).ip "laptop.lan" := by
    rintro ⟨c, hc, he⟩
    rw [List.mem_singleton.mp hc] at he
    exact absurd he (by decide)
  obtain ⟨id, n, hid, hn, ⟨-, hip⟩, -⟩ := h [] (namedPacket "laptop.lan") haddr (by decide)
    (by decide) (by decide) (by decide) (by decide) (by decide) (by decide) hname
  have hkey : (ingestAll [namedPacket "laptop.lan"]).ipToNodeID.lookup "10.0.0.5"
      = some "aa:bb:cc:00:11:22" := by
    decide
  have hnode : ((ingestAll [namedPacket "laptop.lan"]).nodes.lookup "aa:bb:cc:00:11:22").map
      Node.hostname = some "10.0.0.5" := by
    decide
  cases hkey.symm.trans hid
  have hlost : n.hostname = "10.0.0.5" :=
    Option.some.inj ((congrArg (Option.map Node.hostname) hn).symm.trans hnode)
  rw [hlost] at hip
  exact hip ⟨_, List.mem_singleton_self _, Or.inl rfl⟩

/-- A name that starts like a MAC is taken for one, so the host is not promoted and keeps it. -/
theorem promotion_keepsName_cafe :
    (ingestAll [namedPacket "cafe-printer.office.lan"]).KeepsName
      (heard [namedPacket "cafe-printer.office.lan"]) "10.0.0.5" :=
  (promotion_keepsName_iff [] (namedPacket "cafe-printer.office.lan")
    (fun c' hc => by rw [List.mem_singleton.mp hc]; exact ⟨by decide, by decide⟩) (by decide)
    (by decide) (by decide)).mpr (by
      unfold IngestCall.Spared
      rw [if_neg (by decide)]
      exact ⟨by decide, fun ⟨c, hc, he⟩ => absurd (List.mem_singleton.mp hc ▸ he) (by decide),
        fun ⟨_, c, hc, he⟩ => absurd (List.mem_singleton.mp hc ▸ he) (by decide)⟩)

end Etherchimp
