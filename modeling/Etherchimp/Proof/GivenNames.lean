import Etherchimp.Proof.Linked
import Etherchimp.Proof.MacStable

/-!
# The name a node was given

A host with a resolved name is filed under that name: the name is the node's id
and its Hostname at once. `NamesGiven` says how far that goes in a run of `Ingest`
calls. A node whose id is neither an address nor a MAC of the run carries that id
as its Hostname, and the id was given as the name of an address that resolves to
it. Every other node carries its own id, an address, or nothing.

The invariant holds although names get lost: `promoteNodeIDToMAC` takes a Hostname
that equals the id for a node without a name, and puts the first address in its
place (`promotedHostname_ip`). That is a node of the second kind then.
-/

namespace Etherchimp

open Manager

/-- What the packets of a run bring: addresses, MACs, and the names given to addresses. -/
structure Heard where
  ip : String → Prop
  mac : String → Prop
  name : String → String → Prop

/-- The addresses are not empty, the MACs are those of hosts. -/
structure Heard.Clean (V : Heard) : Prop where
  ip : ∀ {k}, V.ip k → k ≠ ""
  mac : ∀ {k}, V.mac k → isHostMAC k

/-- `k` is neither an address nor a MAC: as an id it can only be a name. -/
def Heard.IsName (V : Heard) (k : String) : Prop := ¬ V.ip k ∧ ¬ V.mac k

/-- Under `k` the hostname is `k` itself, unless an address or nothing stands in for it. -/
def Heard.Fits (V : Heard) (k hostname : String) : Prop :=
  hostname = k ∨ (V.ip k ∨ V.mac k) ∧ (hostname = "" ∨ V.ip hostname)

/-- What the node under `k` says about itself. -/
structure NodeNamed (V : Heard) (k : String) (n : Node) : Prop where
  id : k ≠ ""
  ips : ∀ ip ∈ n.ips, V.ip ip
  /-- A host has the address of a host. -/
  host : n.isGroup = false → ∃ ip ∈ n.ips, groupAddressLabel ip = none
  name : V.Fits k n.hostname

/-- Every node has the name it was given. -/
structure NamesGiven (V : Heard) (m : Manager) : Prop where
  nodes : ∀ {k n}, m.nodes.lookup k = some n → NodeNamed V k n
  filed : ∀ {h id}, m.hostnameToNodeID.lookup h = some id → id = h ∨ V.mac id ∧ V.ip h
  given : ∀ {k n}, m.nodes.lookup k = some n → V.IsName k →
    ∃ ip, m.ipToNodeID.lookup ip = some k ∧ V.name ip k
  live : ∀ {ip k}, m.ipToNodeID.lookup ip = some k → ∃ n, m.nodes.lookup k = some n

variable {V : Heard} {m m' : Manager}

theorem Heard.Fits.eq {k hostname : String} (h : V.Fits k hostname) (hk : V.IsName k) :
    hostname = k := by
  rcases h with h | ⟨hid | hid, -⟩
  · exact h
  · exact absurd hid hk.1
  · exact absurd hid hk.2

theorem namesGiven_init (V : Heard) : NamesGiven V newManager where
  nodes h := by cases h
  filed h := by cases h
  given h := by cases h
  live h := by cases h

/-! ## Changes that leave the names alone -/

/-- The node keeps its addresses, its hostname and whether it is a group. -/
structure NameKept (n n' : Node) : Prop where
  ips : n'.ips = n.ips
  hostname : n'.hostname = n.hostname
  isGroup : n'.isGroup = n.isGroup

theorem NameKept.refl (n : Node) : NameKept n n := ⟨rfl, rfl, rfl⟩

theorem NameKept.trans {a b c : Node} (h : NameKept a b) (h' : NameKept b c) : NameKept a c :=
  ⟨h'.ips.trans h.ips, h'.hostname.trans h.hostname, h'.isGroup.trans h.isGroup⟩

/-- Nodes, addresses and hostnames are kept. -/
structure NamesKept (m m' : Manager) : Prop where
  nodes : KeyedMap.Related (fun _ => NameKept) m.nodes m'.nodes
  ipTo : m'.ipToNodeID = m.ipToNodeID
  hostnames : m'.hostnameToNodeID = m.hostnameToNodeID

theorem NamesKept.of_nodes_eq (hn : m'.nodes = m.nodes) (hi : m'.ipToNodeID = m.ipToNodeID)
    (hh : m'.hostnameToNodeID = m.hostnameToNodeID) : NamesKept m m' :=
  ⟨by rw [hn]; exact KeyedMap.related_refl (fun _ => NameKept.refl) _, hi, hh⟩

theorem NamesKept.adjust {id : String} {f : Node → Node} (hn : m'.nodes = m.nodes.adjust id f)
    (hi : m'.ipToNodeID = m.ipToNodeID) (hh : m'.hostnameToNodeID = m.hostnameToNodeID)
    (hf : ∀ n, NameKept n (f n)) : NamesKept m m' :=
  ⟨by rw [hn]; exact KeyedMap.related_adjust (fun _ => NameKept.refl) _ hf, hi, hh⟩

theorem NamesKept.trans {a b c : Manager} (h : NamesKept a b) (h' : NamesKept b c) :
    NamesKept a c :=
  ⟨KeyedMap.Related.trans (S := fun _ => NameKept) (fun _ _ _ _ => NameKept.trans) h.nodes h'.nodes,
    h'.ipTo.trans h.ipTo, h'.hostnames.trans h.hostnames⟩

theorem NodeNamed.kept {k : String} {n n' : Node} (hk : NameKept n n') (h : NodeNamed V k n) :
    NodeNamed V k n' where
  id := h.id
  ips := by rw [hk.ips]; exact h.ips
  host := by rw [hk.isGroup, hk.ips]; exact h.host
  name := by rw [hk.hostname]; exact h.name

theorem NamesGiven.kept (hk : NamesKept m m') (h : NamesGiven V m) : NamesGiven V m' where
  nodes hl := by
    obtain ⟨n, hn, hkn⟩ := hk.nodes.lookup hl
    exact (h.nodes hn).kept hkn
  filed hl := h.filed (by rwa [hk.hostnames] at hl)
  given hl hname := by
    obtain ⟨n, hn, -⟩ := hk.nodes.lookup hl
    rw [hk.ipTo]
    exact h.given hn hname
  live hl := by
    rw [hk.ipTo] at hl
    obtain ⟨n, hn⟩ := h.live hl
    obtain ⟨n', hn', -⟩ := hk.nodes.lookup' hn
    exact ⟨n', hn'⟩

section Kept

variable [RuneCase]

theorem noteMAC_namesKept {nodeID : String} (mac : String) {node : Node}
    (hl : m.nodes.lookup nodeID = some node) : NamesKept m (m.noteMAC nodeID mac node) := by
  unfold noteMAC
  split
  · exact NamesKept.of_nodes_eq rfl rfl rfl
  · exact ⟨KeyedMap.related_insert (fun _ => NameKept.refl) hl ⟨rfl, rfl, rfl⟩, rfl, rfl⟩

omit [RuneCase] in
theorem addPeersLocked_namesKept (m : Manager) (aID bID : String) :
    NamesKept m (m.addPeersLocked aID bID) := by
  have hp : ∀ (m : Manager) (a b : String), NamesKept m { m with nodes := addPeer m.nodes a b } :=
    fun m a b => NamesKept.adjust rfl rfl rfl fun n => ⟨rfl, rfl, rfl⟩
  unfold addPeersLocked
  split
  · exact NamesKept.of_nodes_eq rfl rfl rfl
  · split
    · exact NamesKept.of_nodes_eq rfl rfl rfl
    · exact (hp m aID bID).trans (hp { m with nodes := addPeer m.nodes aID bID } bID aID)

omit [RuneCase] in
theorem addOrUpdateEdgeLocked_namesKept (m : Manager) (srcIP dstIP : String) (protocol : Protocol)
    (bytes : Nat) (now : Int) :
    NamesKept m (m.addOrUpdateEdgeLocked srcIP dstIP protocol bytes now) := by
  have h1 : NamesKept m (m.countProtocol protocol) := NamesKept.of_nodes_eq rfl rfl rfl
  unfold addOrUpdateEdgeLocked
  dsimp only
  generalize (m.countProtocol protocol).resolve srcIP = src,
    (m.countProtocol protocol).resolve dstIP = dst
  obtain ⟨key, f, t⟩ := getCanonicalEdgeID src dst
  have h2 := h1.trans (addPeersLocked_namesKept (m.countProtocol protocol) f t)
  have h3 : NamesKept ((m.countProtocol protocol).addPeersLocked f t)
      (((m.countProtocol protocol).addPeersLocked f t).countOnEdge key f t (src = f) protocol bytes
        now) := by
    unfold countOnEdge
    split <;> exact NamesKept.of_nodes_eq rfl rfl rfl
  have h4 := h2.trans h3
  exact ⟨h4.nodes, h4.ipTo, h4.hostnames⟩

omit [RuneCase] in
theorem addPortObservationLocked_namesKept (m : Manager) (srcIP dstIP : String)
    (dstPort : UInt16) : NamesKept m (m.addPortObservationLocked srcIP dstIP dstPort) := by
  have h1 : ∀ id, NamesKept m
      { m with nodes := m.nodes.adjust id (fun src => { src with outPackets := src.outPackets + 1 }) } :=
    fun id => NamesKept.adjust rfl rfl rfl fun n => ⟨rfl, rfl, rfl⟩
  refine (h1 ((m.ipToNodeID.lookup srcIP).getD "")).trans
    (NamesKept.adjust rfl rfl rfl fun n => ?_)
  dsimp only
  split <;> exact ⟨rfl, rfl, rfl⟩

omit [RuneCase] in
theorem stampDeviceInfoLocked_namesKept (m : Manager) (pkt : PacketInfo) :
    NamesKept m (m.stampDeviceInfoLocked pkt) := by
  unfold stampDeviceInfoLocked
  split
  · exact NamesKept.of_nodes_eq rfl rfl rfl
  · split
    · exact NamesKept.of_nodes_eq rfl rfl rfl
    · exact NamesKept.adjust rfl rfl rfl fun n => ⟨rfl, rfl, rfl⟩

/-- After the MACs nothing of a call touches a name. -/
theorem IngestCall.afterMACs_namesKept (m : Manager) (c : IngestCall) :
    NamesKept (c.afterMACs m) (c.apply m) := by
  rw [IngestCall.apply_eq]
  exact ((addOrUpdateEdgeLocked_namesKept ..).trans (addPortObservationLocked_namesKept ..)).trans
    (stampDeviceInfoLocked_namesKept ..)

end Kept

/-! ## Merges -/

section Steps

variable [RuneCase] {newID oldID hostname nodeID ip mac : String} {bytes : Nat} {now : Int}

theorem NodeNamed.merged {x y : Option Node} {n : Node} (hid : newID ≠ "")
    (hx : ∀ n₁, x = some n₁ → NodeNamed V newID n₁) (hy : ∀ n₂, y = some n₂ → NodeNamed V oldID n₂)
    (hname : x = none → V.Fits newID hostname) (h : mergedNode newID hostname x y = some n) :
    NodeNamed V newID n where
  id := hid
  ips ip hip := by
    rcases (mem_mergedNode_ips h ip).mp hip with ⟨n₁, he, hm⟩ | ⟨n₂, he, hm⟩
    · exact (hx n₁ he).ips ip hm
    · exact (hy n₂ he).ips ip hm
  host hg := by
    have hof : (∃ n₁, x = some n₁ ∧ n₁.isGroup = false)
        ∨ ∃ n₂, y = some n₂ ∧ n₂.isGroup = false := by
      cases x with
      | none => cases y with
        | none => cases h
        | some o => cases h; exact Or.inr ⟨o, rfl, hg⟩
      | some n₁ => cases y with
        | none => cases h; exact Or.inl ⟨n₁, rfl, hg⟩
        | some o => cases h; exact Or.inl ⟨n₁, rfl, hg⟩
    rcases hof with ⟨n₁, he, hg₁⟩ | ⟨n₂, he, hg₂⟩
    · obtain ⟨ip, hip, hl⟩ := (hx n₁ he).host hg₁
      exact ⟨ip, (mem_mergedNode_ips h ip).mpr (Or.inl ⟨n₁, he, hip⟩), hl⟩
    · obtain ⟨ip, hip, hl⟩ := (hy n₂ he).host hg₂
      exact ⟨ip, (mem_mergedNode_ips h ip).mpr (Or.inr ⟨n₂, he, hip⟩), hl⟩
  name := by
    cases x with
    | none => cases y with
      | none => cases h
      | some o => cases h; exact hname rfl
    | some n₁ => cases y with
      | none => cases h; exact (hx n₁ rfl).name
      | some o => cases h; exact (hx n₁ rfl).name

/-- A merge keeps the names when the new id has its node, or the name that goes with it. -/
theorem NamesGiven.merge (hne : oldID ≠ newID) (hid : newID ≠ "")
    (hname : m.nodes.lookup newID = none → V.Fits newID hostname)
    (hgiven : m.nodes.lookup newID = none → V.IsName newID →
      ∃ ip, m.ipToNodeID.lookup ip = some oldID ∧ V.name ip newID)
    (h : NamesGiven V m) : NamesGiven V (m.mergeNodeInto newID oldID hostname) where
  nodes {k n} hl := by
    rw [mergeNodeInto_nodes hne] at hl
    split at hl
    · cases hl
    · split at hl
      · rename_i hk
        subst hk
        exact NodeNamed.merged hid (fun _ => h.nodes) (fun _ => h.nodes) hname hl
      · exact h.nodes hl
  filed hl := h.filed hl
  given {k n} hl hn := by
    rw [mergeNodeInto_nodes hne] at hl
    -- an address of the id's own node stays on it
    have hstays : ∀ n₀, m.nodes.lookup k = some n₀ → k ≠ oldID →
        ∃ ip, (m.mergeNodeInto newID oldID hostname).ipToNodeID.lookup ip = some k ∧ V.name ip k := by
      intro n₀ hl₀ hko
      obtain ⟨ip, hip, hnm⟩ := h.given hl₀ hn
      refine ⟨ip, ?_, hnm⟩
      rw [mergeNodeInto_ipToNodeID, hip]
      exact congrArg some (if_neg hko)
    split at hl
    · cases hl
    · rename_i hko
      split at hl
      · rename_i hk
        subst hk
        cases hnew : m.nodes.lookup k with
        | some n₀ => exact hstays n₀ hnew hko
        | none =>
          obtain ⟨ip, hip, hnm⟩ := hgiven hnew hn
          refine ⟨ip, ?_, hnm⟩
          rw [mergeNodeInto_ipToNodeID, hip]
          exact congrArg some (if_pos rfl)
      · exact hstays n hl hko
  live {ip k} hl := by
    rw [mergeNodeInto_ipToNodeID, Option.map_eq_some_iff] at hl
    obtain ⟨k₀, hk₀, rfl⟩ := hl
    exact exists_repoint hostname hne (h.live hk₀)

/-! ## Counting an endpoint -/

omit [RuneCase] in
/-- The id an endpoint is filed under: its name, or an id that needs none. -/
theorem nodeIDFor_fits (hname : hostname ≠ "" → V.name ip hostname) (hip : V.ip ip)
    (h : NamesGiven V m) : V.Fits (m.nodeIDFor ip hostname) hostname
      ∧ (V.IsName (m.nodeIDFor ip hostname) → V.name ip (m.nodeIDFor ip hostname)) := by
  unfold nodeIDFor
  by_cases hu : useHostname ip hostname
  · rw [if_pos hu]
    cases hl : m.hostnameToNodeID.lookup hostname with
    | none => exact ⟨Or.inl rfl, fun _ => hname hu.1⟩
    | some id =>
      rcases h.filed hl with he | ⟨hmac, hh⟩
      · rw [Option.getD_some, he]
        exact ⟨Or.inl rfl, fun _ => hname hu.1⟩
      · exact ⟨Or.inr ⟨Or.inr hmac, Or.inr hh⟩, fun hn => absurd hmac hn.2⟩
  · rw [if_neg hu]
    refine ⟨?_, fun hn => absurd hip hn.1⟩
    by_cases he : hostname = ip
    · exact Or.inl he
    · by_cases h0 : hostname = ""
      · exact Or.inr ⟨Or.inl hip, Or.inl h0⟩
      · exact absurd ⟨h0, he⟩ hu

omit [RuneCase] in
theorem nodeIDFor_ne_empty (hV : V.Clean) (hip : V.ip ip) (h : NamesGiven V m) :
    m.nodeIDFor ip hostname ≠ "" := by
  unfold nodeIDFor
  by_cases hu : useHostname ip hostname
  · rw [if_pos hu]
    cases hl : m.hostnameToNodeID.lookup hostname with
    | none => exact hu.1
    | some id =>
      rcases h.filed hl with he | ⟨hmac, -⟩
      · rw [Option.getD_some, he]; exact hu.1
      · rintro rfl
        exact absurd (hV.mac hmac) (by decide)
  · rw [if_neg hu]
    exact hV.ip hip

omit [RuneCase] in
theorem NamesGiven.claim (h : NamesGiven V m) :
    NamesGiven V ({ m with dirty := true }.claimHostname ip hostname) := by
  have hd : NamesGiven V { m with dirty := true } :=
    h.kept (NamesKept.of_nodes_eq (m := m) rfl rfl rfl)
  unfold claimHostname
  split
  · refine ⟨hd.nodes, ?_, hd.given, hd.live⟩
    intro name id hl
    dsimp only at hl
    rw [KeyedMap.lookup_insert_eq] at hl
    split at hl
    · rename_i he
      cases hl
      exact Or.inl he.symm
    · exact h.filed hl
  · exact hd

theorem NamesGiven.mergePrevious (hid : nodeID ≠ "") (hname : V.Fits nodeID hostname)
    (hgiven : V.IsName nodeID → V.name ip nodeID) (h : NamesGiven V m) :
    NamesGiven V (m.mergePrevious ip hostname nodeID) := by
  have hc : NamesGiven V ({ m with dirty := true }.claimHostname ip hostname) := h.claim
  have hk := (claimHostname_kept m ip hostname).ipTo
  unfold Manager.mergePrevious
  dsimp only
  split
  · rename_i hg
    refine hc.merge hg.2 hid (fun _ => hname) (fun _ hn => ⟨ip, ?_, hgiven hn⟩)
    rw [hk]
    cases hl : m.ipToNodeID.lookup ip with
    | none => rw [hl] at hg; exact absurd rfl hg.1
    | some k => rfl
  · exact hc

/-- The node an endpoint is counted on, and its name. -/
theorem countEndpoint_named (m : Manager) (nodeID ip hostname : String) (bytes : Nat) (now : Int) :
    ∃ node, (m.countEndpoint nodeID ip hostname bytes now).nodes = m.nodes.insert nodeID node
      ∧ match m.nodes.lookup nodeID with
        | none => node.ips = [ip] ∧ node.hostname = hostname
            ∧ node.isGroup = (groupAddressLabel ip).isSome
        | some n => node.ips = n.ips ∧ (node.hostname = n.hostname ∨ node.hostname = hostname)
            ∧ (node.isGroup = false → n.isGroup = false) := by
  unfold countEndpoint
  dsimp only
  cases m.nodes.lookup nodeID with
  | none => exact ⟨_, rfl, rfl, rfl, rfl⟩
  | some n =>
    refine ⟨_, rfl, ?_⟩
    -- the lookup was just written, so the address is never appended
    have hip : ({ m with ipToNodeID := m.ipToNodeID.insert ip nodeID } : Manager).appendsIP nodeID
        ip = false := by
      unfold appendsIP
      simp [AList.lookup_insert]
    unfold seeNode
    rw [hip]
    simp only [Bool.false_eq_true, if_false, Bool.false_or]
    by_cases hn : takesName { n with
      packetCount := n.packetCount + 1, byteCount := n.byteCount + bytes, lastSeen := now } ip hostname
    · rw [hn]
      by_cases hg : (groupAddressLabel ip).isSome
      · simp [hg]
      · simp [hg]
    · rw [Bool.not_eq_true] at hn
      rw [hn]
      by_cases hg : (groupAddressLabel ip).isSome
      · simp [hg]
      · simp [hg]

theorem NamesGiven.countEndpoint (hid : nodeID ≠ "") (hip : V.ip ip)
    (hname : V.Fits nodeID hostname) (hgiven : V.IsName nodeID → V.name ip nodeID)
    (hself : ∀ k, m.ipToNodeID.lookup ip = some k → k = nodeID) (h : NamesGiven V m) :
    NamesGiven V (m.countEndpoint nodeID ip hostname bytes now) := by
  obtain ⟨node, hnodes, hnode⟩ := countEndpoint_named m nodeID ip hostname bytes now
  have hnamed : NodeNamed V nodeID node := by
    cases hl : m.nodes.lookup nodeID with
    | none =>
      rw [hl] at hnode
      obtain ⟨hips, hh, hg⟩ := hnode
      refine ⟨hid, ?_, fun hgf => ⟨ip, ?_, ?_⟩, hh ▸ hname⟩
      · rw [hips]
        intro x hx
        rw [List.mem_singleton.mp hx]
        exact hip
      · rw [hips]; exact List.mem_singleton_self _
      · rw [hg] at hgf
        simpa using hgf
    | some n =>
      rw [hl] at hnode
      obtain ⟨hips, hh, hg⟩ := hnode
      have hn := h.nodes hl
      refine ⟨hid, hips ▸ hn.ips, fun hgf => hips ▸ hn.host (hg hgf), ?_⟩
      rcases hh with hh | hh
      · rw [hh]; exact hn.name
      · rw [hh]; exact hname
  refine ⟨?_, ?_, ?_, ?_⟩
  · intro k n hl
    rw [hnodes, KeyedMap.lookup_insert_eq] at hl
    split at hl
    · rename_i hk
      cases hl
      rw [hk]
      exact hnamed
    · exact h.nodes hl
  · intro name id hl
    rw [countEndpoint_names] at hl
    exact h.filed hl
  · intro k n hl hn
    rw [hnodes, KeyedMap.lookup_insert_eq] at hl
    rw [countEndpoint_ipToNodeID]
    split at hl
    · rename_i hk
      subst hk
      exact ⟨ip, AList.lookup_insert _, hgiven hn⟩
    · rename_i hk
      obtain ⟨x, hx, hnm⟩ := h.given hl hn
      refine ⟨x, ?_, hnm⟩
      rw [KeyedMap.lookup_insert_eq, if_neg]
      · exact hx
      · rintro rfl
        exact hk (hself k hx)
  · intro x k hl
    rw [countEndpoint_ipToNodeID, KeyedMap.lookup_insert_eq] at hl
    rw [hnodes, KeyedMap.lookup_insert_eq]
    split at hl
    · cases hl
      exact ⟨node, if_pos rfl⟩
    · split
      · exact ⟨node, rfl⟩
      · exact h.live hl

theorem NamesGiven.addOrUpdateNode (hV : V.Clean) (hip : V.ip ip)
    (hname : nodeHostname ip hostname ≠ "" → V.name ip (nodeHostname ip hostname))
    (h : NamesGiven V m) : NamesGiven V (m.addOrUpdateNodeLocked ip hostname bytes now) := by
  have hid := @nodeIDFor_ne_empty V m (nodeHostname ip hostname) ip hV hip h
  obtain ⟨hfits, hgiven⟩ := nodeIDFor_fits hname hip h
  refine (h.mergePrevious hid hfits hgiven).countEndpoint hid hip hfits hgiven fun k hl => ?_
  refine mergePrevious_lookup_self ?_ hl
  intro he
  obtain ⟨n, hn⟩ := h.live he
  exact (h.nodes hn).id rfl

/-! ## Recording a MAC -/

/-- A node whose id is no name may take an address for its hostname. -/
theorem NamesGiven.rename {id : String}
    (hn : m'.nodes = m.nodes.adjust id (nameNode id hostname mac))
    (hi : m'.ipToNodeID = m.ipToNodeID) (hid : V.ip id ∨ V.mac id) (hname : V.ip hostname)
    (hfiled : ∀ {h k}, m'.hostnameToNodeID.lookup h = some k → k = h ∨ V.mac k ∧ V.ip h)
    (h : NamesGiven V m) : NamesGiven V m' := by
  have hrel : KeyedMap.Related (fun k a b => NodeNamed V k a → NodeNamed V k b) m.nodes
      m'.nodes := by
    rw [hn]
    refine KeyedMap.related_adjust (fun _ _ hnn => hnn) _ fun n hnn => ?_
    refine ⟨hnn.id, hnn.ips, hnn.host, ?_⟩
    show V.Fits id (if n.hostname = "" ∨ n.hostname = mac then hostname else n.hostname)
    split
    · exact Or.inr ⟨hid, Or.inr hname⟩
    · exact hnn.name
  refine ⟨?_, hfiled, ?_, ?_⟩
  · intro k n hl
    obtain ⟨n₀, hl₀, hk⟩ := hrel.lookup hl
    exact hk (h.nodes hl₀)
  · intro k n hl hk
    obtain ⟨n₀, hl₀, -⟩ := hrel.lookup hl
    rw [hi]
    exact h.given hl₀ hk
  · intro ip k hl
    rw [hi] at hl
    obtain ⟨n, hl₀⟩ := h.live hl
    obtain ⟨n', hl', -⟩ := hrel.lookup' hl₀
    exact ⟨n', hl'⟩

omit [RuneCase] in
/-- The first host address of a node, when the node is a host. -/
theorem NodeNamed.firstHostIP {k : String} {n : Node} (hg : n.isGroup = false)
    (h : NodeNamed V k n) : ∃ ip, firstHostIP n.ips = some ip ∧ V.ip ip := by
  obtain ⟨ip, hip, hl⟩ := h.host hg
  cases hf : Manager.firstHostIP n.ips with
  | none =>
    have := List.find?_eq_none.mp hf ip hip
    rw [hl] at this
    exact absurd rfl this
  | some x => exact ⟨x, rfl, h.ips x (List.mem_of_find?_eq_some hf)⟩

omit [RuneCase] in
/-- **A promoted host is named after an address**, the first of its own if it had a name. -/
theorem promotedHostname_ip {node : Node} (hV : V.Clean) (hg : node.isGroup = false)
    (h : NodeNamed V nodeID node) : V.ip (promotedHostname node nodeID) := by
  obtain ⟨ip, hf, hip⟩ := h.firstHostIP hg
  unfold promotedHostname
  by_cases hn : node.hostname = "" ∨ node.hostname = nodeID
  · rw [if_pos hn, hf]
    dsimp only
    rw [Option.getD_some, if_neg (hV.ip hip)]
    exact hip
  · rw [if_neg hn]
    rcases h.name with he | ⟨-, he | he⟩
    · exact absurd (Or.inr he) hn
    · exact absurd (Or.inl he) hn
    · exact he

theorem NamesGiven.promote (hV : V.Clean) (hmac : isHostMAC mac → V.mac mac)
    (h : NamesGiven V m) : NamesGiven V (m.promoteNodeIDToMAC nodeID mac) := by
  by_cases hp : m.Promotes nodeID mac
  · obtain ⟨-, hnm, -, hhost, -, node, hl, hg⟩ := id hp
    have hmac := hmac hhost
    have hname := promotedHostname_ip hV hg (h.nodes hl)
    have hne : mac ≠ "" := by
      rintro rfl
      exact absurd hhost (by decide)
    have hm : NamesGiven V (m.mergeNodeInto mac nodeID (promotedHostname node nodeID)) :=
      h.merge hnm hne (fun _ => Or.inr ⟨Or.inr hmac, Or.inr hname⟩) fun _ hn => absurd hmac hn.2
    rw [promoteNodeIDToMAC_eq hp hl]
    refine hm.rename rfl rfl (Or.inr hmac) hname fun {x k} hx => ?_
    -- the name under which the node was filed is dropped, the new one is an address
    dsimp only at hx
    rw [patchedNames_lookup] at hx
    split at hx
    · rename_i hc
      cases hx
      rw [hc.2.2]
      exact Or.inr ⟨hmac, hname⟩
    · split at hx
      · cases hx
      · exact h.filed hx
  · rw [promoteNodeIDToMAC_eq_self hp]
    exact h

theorem NamesGiven.demote (h : NamesGiven V m) : NamesGiven V (m.demoteMACIdentity mac) := by
  unfold demoteMACIdentity
  cases hl : m.nodes.lookup mac with
  | none => exact h
  | some node =>
    dsimp only
    split
    · exact h
    · rename_i hg
      simp only [not_or] at hg
      obtain ⟨hne, hnm⟩ := hg
      have hn := h.nodes hl
      cases hf : firstHostIP node.ips with
      | none => rw [hf] at hne; exact absurd rfl hne
      | some newID =>
        rw [hf, Option.getD_some] at hne hnm
        rw [Option.getD_some]
        have hnew : V.ip newID := hn.ips newID (List.mem_of_find?_eq_some hf)
        have hname : V.ip (if node.hostname = "" ∨ node.hostname = mac then newID
            else node.hostname) := by
          split
          · exact hnew
          · rename_i hc
            rcases hn.name with he | ⟨-, he | he⟩
            · exact absurd (Or.inr he) hc
            · exact absurd (Or.inl he) hc
            · exact he
        have hm := h.merge (fun he => hnm he.symm) hne
          (fun _ => Or.inr ⟨Or.inl hnew, Or.inr hname⟩) fun _ hn => absurd hnew hn.1
        exact hm.rename rfl rfl (Or.inl hnew) hname hm.filed

theorem NamesGiven.recordMAC (hV : V.Clean) (hmac : isHostMAC mac → V.mac mac)
    (h : NamesGiven V m) : NamesGiven V (m.recordMACLocked nodeID mac now) := by
  have hspec := macCase_spec m nodeID mac now
  rw [recordMACLocked_eq]
  cases hn : m.nodes.lookup nodeID with
  | none => exact h
  | some node =>
    have hnoted := h.kept (noteMAC_namesKept mac hn)
    have hset : ∀ m' : Manager, NamesGiven V m' → NamesGiven V (m'.setAnchor nodeID mac) :=
      fun m' h' => h'.kept (NamesKept.of_nodes_eq (m := m') rfl rfl rfl)
    dsimp only
    cases hc : m.macCase nodeID mac now with
    | skip => exact h
    | note => exact hnoted
    | anchor => exact (hset _ hnoted).promote hV hmac
    | confirm => exact hnoted.promote hV hmac
    | share =>
      have hshare : NamesGiven V ((m.noteMAC nodeID mac node).shareMAC mac) :=
        hnoted.kept (NamesKept.of_nodes_eq (m := m.noteMAC nodeID mac node) rfl rfl rfl)
      exact hshare.demote
    | readdress a =>
      rw [hc] at hspec
      obtain ⟨hid, -, -, -, hane, -⟩ := hspec
      -- the node the anchor is merged into is there, and stays what it is
      obtain ⟨n', hl', -⟩ := (noteMAC_namesKept mac hn).nodes.lookup' hn
      have hmerge : NamesGiven V
          ((m.noteMAC nodeID mac node).mergeNodeInto nodeID a node.hostname) :=
        hnoted.merge hane hid (fun hnone => by rw [hl'] at hnone; cases hnone)
          fun hnone => by rw [hl'] at hnone; cases hnone
      exact (hset _ hmerge).promote hV hmac

theorem NamesGiven.recordEndpointMAC (hV : V.Clean) (hmac : isHostMAC mac → V.mac mac)
    (h : NamesGiven V m) : NamesGiven V (m.recordEndpointMAC ip mac now) := by
  unfold Manager.recordEndpointMAC
  split
  · exact h
  · split
    · exact h
    · exact h.recordMAC hV hmac

end Steps

/-! ## Runs of `Ingest` -/

/-- Everything the call brings has been heard. -/
structure IngestCall.Within (V : Heard) (c : IngestCall) : Prop where
  srcIP : V.ip c.pkt.srcIP
  dstIP : V.ip c.pkt.dstIP
  srcName : nodeHostname c.pkt.srcIP c.srcHostname ≠ "" →
    V.name c.pkt.srcIP (nodeHostname c.pkt.srcIP c.srcHostname)
  dstName : nodeHostname c.pkt.dstIP c.dstHostname ≠ "" →
    V.name c.pkt.dstIP (nodeHostname c.pkt.dstIP c.dstHostname)
  srcMAC : isHostMAC c.pkt.srcMAC → V.mac c.pkt.srcMAC
  dstMAC : isHostMAC c.pkt.dstMAC → V.mac c.pkt.dstMAC

section Runs

variable [RuneCase] {c : IngestCall}

theorem NamesGiven.afterEndpoints (hV : V.Clean) (hc : c.Within V) (h : NamesGiven V m) :
    NamesGiven V (c.afterEndpoints m) := by
  have h0 : NamesGiven V { m with dirty := true } :=
    h.kept (NamesKept.of_nodes_eq (m := m) rfl rfl rfl)
  have h1 : NamesGiven V (c.afterSrc m) := h0.addOrUpdateNode hV hc.srcIP hc.srcName
  exact h1.addOrUpdateNode hV hc.dstIP hc.dstName

theorem NamesGiven.afterSrcMAC (hV : V.Clean) (hc : c.Within V) (h : NamesGiven V m) :
    NamesGiven V (c.afterSrcMAC m) :=
  (h.afterEndpoints hV hc).recordEndpointMAC hV hc.srcMAC

theorem NamesGiven.ingest (hV : V.Clean) (hc : c.Within V) (h : NamesGiven V m) :
    NamesGiven V (c.apply m) := by
  have h4 : NamesGiven V (c.afterMACs m) :=
    (h.afterSrcMAC hV hc).recordEndpointMAC hV hc.dstMAC
  exact h4.kept (IngestCall.afterMACs_namesKept m c)

/-- The names are given after every run. -/
theorem namesGiven_run (hV : V.Clean) {calls : List IngestCall} (hw : ∀ c ∈ calls, c.Within V) :
    NamesGiven V (ingestAll calls) :=
  Run.invariant (namesGiven_init V) (fun _ _ h hc => h.ingest hV hc)
    (Run.guarded_of_forall newManager hw)

end Runs

end Etherchimp
