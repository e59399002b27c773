import Etherchimp.Proof.Identity
import Etherchimp.Proof.EdgeMerge
import Etherchimp.Lib.Tally

/-!
# The history behind the counters

A run of `Ingest` calls is followed by two histories: the endpoints counted on
nodes so far and the packets counted on edges so far. What an endpoint or a
packet counts for moves with the lookup table, so every total is over the
history as the addresses resolve *now*. `Bound` says the history is resolved by
clean ids.

A merge relabels: events at the old id become events at the new one, and the
class of the new id becomes the union of two. A `Ledger` is an invariant about
the histories that survives a merge, a counted endpoint, a counted packet and
the changes that keep the graph; `Ledger.run` takes one through every run.
-/

namespace Etherchimp

open Manager

/-- One packet as seen from one of its endpoints: the address and the bytes. -/
structure Endpoint where
  ip : String
  bytes : Nat

/-- An id the packet path can be trusted with: not the sentinel, and no separator inside. -/
def CleanID (s : String) : Prop := s ≠ "" ∧ SepFree s

instance (s : String) : Decidable (CleanID s) := inferInstanceAs (Decidable (_ ∧ _))

section Classes

variable (m : Manager)

/-- The endpoint resolves to `k`. -/
def resolvesTo (k : String) (ev : Endpoint) : Bool := m.ipToNodeID.lookup ev.ip = some k

/-- The packet goes from `a` to `b`. -/
def along (a b : String) (pkt : PacketInfo) : Bool :=
  m.ipToNodeID.lookup pkt.srcIP = some a ∧ m.ipToNodeID.lookup pkt.dstIP = some b

end Classes

/-- One endpoint's weight, as packets and bytes. -/
def Endpoint.weight (ev : Endpoint) : Nat × Nat := (1, ev.bytes)

/-- One packet's weight, as packets and bytes. -/
def PacketInfo.weight (pkt : PacketInfo) : Nat × Nat := (1, pkt.length)

/-- The history is resolved, by clean ids, to nodes that exist. -/
structure Bound (evs : List Endpoint) (pkts : List PacketInfo) (m : Manager) : Prop where
  wellKeyed : WellKeyed m.edges
  clean : ∀ k n, m.nodes.lookup k = some n → CleanID k ∧ ∀ ip ∈ n.ips, CleanID ip
  resolves : ∀ ip k, m.ipToNodeID.lookup ip = some k → ∃ n, m.nodes.lookup k = some n
  seen : ∀ ev ∈ evs, ∃ k, m.ipToNodeID.lookup ev.ip = some k
  ends : ∀ pkt ∈ pkts, (∃ k, m.ipToNodeID.lookup pkt.srcIP = some k)
    ∧ ∃ k, m.ipToNodeID.lookup pkt.dstIP = some k

variable {evs : List Endpoint} {pkts : List PacketInfo} {m m' : Manager}

/-! ## Kept changes -/

theorem Bound.kept (hk : NodesKept m m') (he : m'.edges = m.edges) (h : Bound evs pkts m) :
    Bound evs pkts m' where
  wellKeyed := by rw [he]; exact h.wellKeyed
  clean := by
    intro k n' hl
    obtain ⟨n, hn, hr⟩ := hk.lookup hl
    rw [hr.ips]
    exact h.clean k n hn
  resolves := by
    intro ip k hl
    rw [hk.ipTo] at hl
    obtain ⟨n, hn⟩ := h.resolves ip k hl
    obtain ⟨n', hn', -⟩ := hk.lookup' hn
    exact ⟨n', hn'⟩
  seen := by rw [hk.ipTo]; exact h.seen
  ends := by rw [hk.ipTo]; exact h.ends

theorem resolvesTo_congr (h : m'.ipToNodeID = m.ipToNodeID) : resolvesTo m' = resolvesTo m := by
  unfold resolvesTo; rw [h]

theorem along_congr (h : m'.ipToNodeID = m.ipToNodeID) : along m' = along m := by
  unfold along; rw [h]

/-! ## A merge relabels -/

section Merge

variable [RuneCase] {newID oldID hostname : String}

theorem Bound.merge (hne : oldID ≠ newID) (hnew : CleanID newID)
    (hold : ∃ n, m.nodes.lookup oldID = some n) (h : Bound evs pkts m) :
    Bound evs pkts (m.mergeNodeInto newID oldID hostname) where
  wellKeyed := h.wellKeyed.merge hnew.2 hne m.edgesByNode
  clean := by
    intro k n hl
    rw [mergeNodeInto_nodes hne] at hl
    split at hl
    · cases hl
    · split at hl
      · rename_i hk
        refine ⟨hk ▸ hnew, fun ip hip => ?_⟩
        rcases (mem_mergedNode_ips hl ip).mp hip with ⟨n₁, hn₁, h₁⟩ | ⟨n₂, hn₂, h₂⟩
        · exact (h.clean _ n₁ hn₁).2 ip h₁
        · exact (h.clean _ n₂ hn₂).2 ip h₂
      · exact h.clean k n hl
  resolves := by
    intro ip k hl
    rw [mergeNodeInto_ipToNodeID] at hl
    obtain ⟨k₀, hk₀, hrep⟩ := Option.map_eq_some_iff.mp hl
    obtain ⟨n₀, hn₀⟩ := h.resolves ip k₀ hk₀
    obtain ⟨o, ho⟩ := hold
    have hko : k ≠ oldID := by rw [← hrep]; exact repoint_ne hne k₀
    rw [mergeNodeInto_nodes hne, if_neg hko]
    by_cases hkn : k = newID
    · rw [if_pos hkn, ← Option.ne_none_iff_exists']
      intro hnone
      rw [mergedNode_eq_none, ho] at hnone
      cases hnone.2
    · rw [if_neg hkn]
      unfold repoint at hrep
      split at hrep
      · exact absurd hrep.symm hkn
      · exact ⟨n₀, hrep ▸ hn₀⟩
  seen := by
    intro ev hev
    obtain ⟨k, hk⟩ := h.seen ev hev
    exact ⟨_, by rw [mergeNodeInto_ipToNodeID, hk]; rfl⟩
  ends := by
    intro pkt hpkt
    obtain ⟨⟨a, ha⟩, ⟨b, hb⟩⟩ := h.ends pkt hpkt
    exact ⟨⟨_, by rw [mergeNodeInto_ipToNodeID, ha]; rfl⟩,
      ⟨_, by rw [mergeNodeInto_ipToNodeID, hb]; rfl⟩⟩

/-- What resolves where after a merge. -/
theorem merge_resolves_iff (m : Manager) (hostname : String) (hne : oldID ≠ newID) (ip k : String) :
    (m.mergeNodeInto newID oldID hostname).ipToNodeID.lookup ip = some k ↔
      k ≠ oldID ∧ (m.ipToNodeID.lookup ip = some k
        ∨ (k = newID ∧ m.ipToNodeID.lookup ip = some oldID)) := by
  rw [mergeNodeInto_ipToNodeID, Option.map_eq_some_iff]
  constructor
  · intro ⟨k₀, hk₀, hrep⟩
    refine ⟨by rw [← hrep]; exact repoint_ne hne k₀, ?_⟩
    unfold repoint at hrep
    split at hrep
    · rename_i ho
      exact Or.inr ⟨hrep.symm, ho ▸ hk₀⟩
    · exact Or.inl (hrep ▸ hk₀)
  · intro ⟨hko, hk⟩
    rcases hk with hk | ⟨hkn, hk⟩
    · exact ⟨k, hk, if_neg hko⟩
    · exact ⟨oldID, hk, by rw [hkn]; exact if_pos rfl⟩

/-- The traffic from one node to another after a merge. -/
theorem along_merge (hne : oldID ≠ newID) {a b : String} (hab : a ≠ b) :
    Tally.total PacketInfo.weight (along (m.mergeNodeInto newID oldID hostname) a b) pkts
      = if a = oldID ∨ b = oldID then 0
        else if a = newID then
          Tally.total PacketInfo.weight (along m a b) pkts
            + Tally.total PacketInfo.weight (along m oldID b) pkts
        else if b = newID then
          Tally.total PacketInfo.weight (along m a b) pkts
            + Tally.total PacketInfo.weight (along m a oldID) pkts
        else Tally.total PacketInfo.weight (along m a b) pkts := by
  have hiff := merge_resolves_iff m hostname hne
  unfold along
  split
  · rename_i ho
    refine Tally.total_eq_zero fun pkt _ => ?_
    rcases ho with ho | ho <;> simp [hiff, ho]
  · rename_i ho
    obtain ⟨hao, hbo⟩ := not_or.mp ho
    split
    · rename_i han
      have hbn : b ≠ newID := fun h => hab (han.trans h.symm)
      rw [← Tally.total_or]
      · refine Tally.total_congr fun pkt _ => ?_
        simp [hiff, han, hne.symm, hbo, hbn, or_and_right]
      · intro pkt _ hp
        have hp := of_decide_eq_true hp
        simp [hp.1, hao]
    · rename_i han
      split
      · rename_i hbn
        rw [← Tally.total_or]
        · refine Tally.total_congr fun pkt _ => ?_
          simp [hiff, hbn, hne.symm, hao, han, and_or_left]
        · intro pkt _ hp
          have hp := of_decide_eq_true hp
          simp [hp.2, hbo]
      · rename_i hbn
        refine Tally.total_congr fun pkt _ => ?_
        simp [hiff, hao, hbo, han, hbn]

end Merge

/-! ## Counting an endpoint -/

section Count

variable [RuneCase] {ip hostname nodeID : String} {bytes : Nat} {now : Int}

/-- Counting an endpoint inserts one lookup, which changes no event of the past. -/
theorem countEndpoint_lookup (hip : ∀ k, m.ipToNodeID.lookup ip = some k → k = nodeID) {a : String}
    (hseen : ∃ k, m.ipToNodeID.lookup a = some k) :
    (m.countEndpoint nodeID ip hostname bytes now).ipToNodeID.lookup a = m.ipToNodeID.lookup a := by
  rw [countEndpoint_ipToNodeID, KeyedMap.lookup_insert_eq]
  split
  · rename_i ha
    obtain ⟨k, hk⟩ := hseen
    rw [hk, hip k (ha ▸ hk)]
  · rfl

@[simp] theorem countEndpoint_edges :
    (m.countEndpoint nodeID ip hostname bytes now).edges = m.edges := by
  unfold countEndpoint
  dsimp only
  split <;> rfl

theorem Bound.countEndpoint (hip : ∀ k, m.ipToNodeID.lookup ip = some k → k = nodeID)
    (hA : CleanID nodeID) (hAip : CleanID ip) (h : Bound evs pkts m) :
    Bound (evs ++ [⟨ip, bytes⟩]) pkts (m.countEndpoint nodeID ip hostname bytes now) := by
  obtain ⟨node, hnodes, hnode⟩ := countEndpoint_nodes m nodeID ip hostname bytes now
  have hpast : ∀ {a}, (∃ k, m.ipToNodeID.lookup a = some k) →
      ∃ k, (m.countEndpoint nodeID ip hostname bytes now).ipToNodeID.lookup a = some k := by
    intro a ha
    rw [countEndpoint_lookup hip ha]
    exact ha
  refine ⟨?_, ?_, ?_, ?_, ?_⟩
  · rw [countEndpoint_edges]; exact h.wellKeyed
  · intro k n hl
    rw [hnodes, KeyedMap.lookup_insert_eq] at hl
    split at hl
    · rename_i hk
      rw [Option.some.injEq] at hl
      subst hk hl
      refine ⟨hA, fun a ha => ?_⟩
      cases hn : m.nodes.lookup k with
      | none =>
        rw [hn] at hnode
        rw [hnode.2.1, List.mem_singleton] at ha
        rw [ha]; exact hAip
      | some n₀ =>
        rw [hn] at hnode
        rw [hnode.2.1] at ha
        exact (h.clean k n₀ hn).2 a ha
    · exact h.clean k n hl
  · intro a k hl
    rw [countEndpoint_ipToNodeID, KeyedMap.lookup_insert_eq] at hl
    rw [hnodes, KeyedMap.lookup_insert_eq]
    split
    · exact ⟨node, rfl⟩
    · rename_i hk
      split at hl
      · exact absurd (Option.some.inj hl).symm hk
      · exact h.resolves a k hl
  · intro ev hev
    rcases List.mem_append.mp hev with hev | hev
    · exact hpast (h.seen ev hev)
    · rw [List.mem_singleton] at hev
      subst hev
      exact ⟨nodeID, by rw [countEndpoint_ipToNodeID]; exact AList.lookup_insert _⟩
  · intro pkt hpkt
    exact ⟨hpast (h.ends pkt hpkt).1, hpast (h.ends pkt hpkt).2⟩

/-! ## Adding or updating a node -/

/-- Every name leads to a clean id. -/
def NamesClean (m : Manager) : Prop := ∀ h id, m.hostnameToNodeID.lookup h = some id → CleanID id

omit [RuneCase] in
theorem nodeHostname_sepFree (ip : String) (hname : SepFree hostname) : SepFree (nodeHostname ip hostname) := by
  unfold nodeHostname
  cases hg : groupAddressLabel ip with
  | none => exact hname
  | some label => exact groupAddressLabel_sepFree hg

omit [RuneCase] in
theorem nodeIDFor_clean (hn : NamesClean m) (hip : CleanID ip) (hname : SepFree hostname) :
    CleanID (m.nodeIDFor ip hostname) := by
  unfold nodeIDFor
  split
  · rename_i hu
    cases hl : m.hostnameToNodeID.lookup hostname with
    | none => exact ⟨hu.1, hname⟩
    | some id => exact hn hostname id hl
  · exact hip

omit [RuneCase] in
theorem claimHostname_names (hn : NamesClean m) (hname : SepFree hostname) :
    NamesClean ({ m with dirty := true }.claimHostname ip hostname) := by
  intro h id hl
  unfold claimHostname at hl
  split at hl
  · rename_i hu
    rw [KeyedMap.lookup_insert_eq] at hl
    split at hl
    · rw [← Option.some.inj hl]; exact ⟨hu.1.1, hname⟩
    · exact hn h id hl
  · exact hn h id hl

theorem countEndpoint_names (m : Manager) (nodeID ip hostname : String) (bytes : Nat)
    (now : Int) :
    (m.countEndpoint nodeID ip hostname bytes now).hostnameToNodeID = m.hostnameToNodeID := by
  unfold countEndpoint
  dsimp only
  split <;> rfl

theorem addOrUpdateNode_names (hn : NamesClean m) (hname : SepFree hostname) :
    NamesClean (m.addOrUpdateNodeLocked ip hostname bytes now) := by
  have hkeep : (m.addOrUpdateNodeLocked ip hostname bytes now).hostnameToNodeID
      = ({ m with dirty := true }.claimHostname ip (nodeHostname ip hostname)).hostnameToNodeID := by
    unfold addOrUpdateNodeLocked mergePrevious
    dsimp only
    rw [countEndpoint_names]
    split
    · rw [mergeNodeInto_hostnameToNodeID]
    · rfl
  unfold NamesClean
  rw [hkeep]
  exact claimHostname_names hn (nodeHostname_sepFree ip hname)

/-- When an endpoint is counted its address is new or on the node already. -/
theorem mergePrevious_lookup_self (hne : m.ipToNodeID.lookup ip ≠ some "") {k : String}
    (hl : (m.mergePrevious ip hostname nodeID).ipToNodeID.lookup ip = some k) : k = nodeID := by
  rw [mergePrevious_ipToNodeID] at hl
  cases hip : m.ipToNodeID.lookup ip with
  | none => rw [hip, if_pos (Or.inl rfl)] at hl; cases hl
  | some k₀ =>
    have hk₀ : k₀ ≠ "" := fun h => hne (by rw [hip, h])
    rw [hip, if_neg (by simp [hk₀])] at hl
    simp only [Option.getD_some, Option.map_some, repoint, if_true, Option.some.injEq] at hl
    exact hl.symm

omit [RuneCase] in
/-- No address resolves to the sentinel. -/
theorem Bound.lookup_ne_empty (h : Bound evs pkts m) (ip : String) :
    m.ipToNodeID.lookup ip ≠ some "" := by
  intro hl
  obtain ⟨n, hn⟩ := h.resolves ip "" hl
  exact (h.clean "" n hn).1.1 rfl

end Count

/-! ## Counting an edge -/

section Edge

variable {srcIP dstIP : String} {protocol : Protocol} {bytes : Nat} {now : Int}

/-- The edge a packet is counted on, after the count. -/
theorem addOrUpdateEdge_lookup (m : Manager) (srcIP dstIP : String) (protocol : Protocol)
    (bytes : Nat) (now : Int) {key canonicalFrom canonicalTo : String}
    (hc : getCanonicalEdgeID (m.resolve srcIP) (m.resolve dstIP)
      = (key, canonicalFrom, canonicalTo)) (k : String) :
    (m.addOrUpdateEdgeLocked srcIP dstIP protocol bytes now).edges.lookup k
      = if k = key then
          some (match m.edges.lookup key with
            | none => newEdge key canonicalFrom canonicalTo (m.resolve srcIP = canonicalFrom)
                protocol bytes now
            | some edge => countPacket edge (m.resolve srcIP = canonicalFrom) protocol bytes now)
        else m.edges.lookup k := by
  unfold addOrUpdateEdgeLocked
  dsimp only
  rw [show (m.countProtocol protocol).resolve srcIP = m.resolve srcIP from rfl,
    show (m.countProtocol protocol).resolve dstIP = m.resolve dstIP from rfl, hc]
  dsimp only
  unfold countOnEdge
  rw [addPeersLocked_edges, show (m.countProtocol protocol).edges = m.edges from rfl]
  cases m.edges.lookup key <;> exact KeyedMap.lookup_insert_eq ..

theorem resolve_eq {ip k : String} (h : m.ipToNodeID.lookup ip = some k) : m.resolve ip = k := by
  unfold resolve; rw [h]; rfl

/-- Two pairs have one edge id exactly when they are one pair. -/
theorem canonKey_eq_iff {a b x y : String} (ha : SepFree a) (hb : SepFree b) (hx : SepFree x)
    (hy : SepFree y) : canonKey x y = canonKey a b ↔ (a = x ∧ b = y) ∨ (a = y ∧ b = x) := by
  constructor
  · intro h
    rcases canonKey_inj hx hy ha hb h with ⟨rfl, rfl⟩ | ⟨rfl, rfl⟩
    · exact Or.inl ⟨rfl, rfl⟩
    · exact Or.inr ⟨rfl, rfl⟩
  · intro h
    rcases h with ⟨rfl, rfl⟩ | ⟨rfl, rfl⟩
    · rfl
    · exact canonKey_comm ..

theorem newEdge_ends (key f t : String) (fwd : Bool) (protocol : Protocol) (bytes : Nat)
    (now : Int) : (newEdge key f t fwd protocol bytes now).fromID = f
      ∧ (newEdge key f t fwd protocol bytes now).toID = t
      ∧ (newEdge key f t fwd protocol bytes now).id = key := ⟨rfl, rfl, rfl⟩

theorem countPacket_ends (e : Edge) (fwd : Bool) (protocol : Protocol) (bytes : Nat) (now : Int) :
    (countPacket e fwd protocol bytes now).fromID = e.fromID
      ∧ (countPacket e fwd protocol bytes now).toID = e.toID
      ∧ (countPacket e fwd protocol bytes now).id = e.id := by
  unfold countPacket
  dsimp only
  split <;> split <;> exact ⟨rfl, rfl, rfl⟩

theorem Bound.addOrUpdateEdge {pkt : PacketInfo} {a b : String}
    (hsrc : m.ipToNodeID.lookup pkt.srcIP = some a)
    (hdst : m.ipToNodeID.lookup pkt.dstIP = some b) (h : Bound evs pkts m) :
    Bound evs (pkts ++ [pkt])
      (m.addOrUpdateEdgeLocked pkt.srcIP pkt.dstIP protocol bytes now) := by
  have hk := addOrUpdateEdgeLocked_nodesKept m pkt.srcIP pkt.dstIP protocol bytes now
  obtain ⟨na, hna⟩ := h.resolves _ a hsrc
  obtain ⟨nb, hnb⟩ := h.resolves _ b hdst
  have ha := (h.clean a na hna).1.2
  have hb := (h.clean b nb hnb).1.2
  refine ⟨?_, ?_, ?_, ?_, ?_⟩
  · intro k e hl
    obtain ⟨key, f, t, hc⟩ : ∃ key f t, getCanonicalEdgeID a b = (key, f, t) := ⟨_, _, _, rfl⟩
    have hft : SepFree f ∧ SepFree t := by
      rcases getCanonicalEdgeID_cases a b with hcase | hcase
      · rw [hc] at hcase; cases hcase; exact ⟨ha, hb⟩
      · rw [hc] at hcase; cases hcase; exact ⟨hb, ha⟩
    rw [addOrUpdateEdge_lookup m _ _ _ _ _ (by rw [resolve_eq hsrc, resolve_eq hdst, hc])] at hl
    split at hl
    · rename_i hkey
      rw [Option.some.injEq] at hl
      cases he : m.edges.lookup key with
      | none =>
        rw [he] at hl
        obtain ⟨h1, h2, h3⟩ := newEdge_ends key f t (m.resolve pkt.srcIP = f) protocol bytes now
        rw [← hl, h1, h2, h3, hkey]
        exact ⟨getCanonicalEdgeID_idem hc, rfl, hft⟩
      | some e₀ =>
        rw [he] at hl
        obtain ⟨h1, h2, h3⟩ := countPacket_ends e₀ (m.resolve pkt.srcIP = f) protocol bytes now
        rw [← hl, h1, h2, h3, hkey]
        exact h.wellKeyed key e₀ he
    · exact h.wellKeyed k e hl
  · intro k n' hl
    obtain ⟨n, hn, hr⟩ := hk.lookup hl
    rw [hr.ips]
    exact h.clean k n hn
  · intro ip k hl
    rw [hk.ipTo] at hl
    obtain ⟨n, hn⟩ := h.resolves ip k hl
    obtain ⟨n', hn', -⟩ := hk.lookup' hn
    exact ⟨n', hn'⟩
  · rw [hk.ipTo]; exact h.seen
  · intro p hp
    rw [hk.ipTo]
    rcases List.mem_append.mp hp with hp | hp
    · exact h.ends p hp
    · rw [List.mem_singleton] at hp
      exact ⟨⟨a, hp ▸ hsrc⟩, ⟨b, hp ▸ hdst⟩⟩

end Edge

/-! ## Runs of `Ingest` -/

/-- One call of `Ingest`, with the clock readings it makes. -/
structure IngestCall where
  pkt : PacketInfo
  srcHostname : String := ""
  dstHostname : String := ""
  clock : IngestClock := {}

/-- Ids are neither empty nor ambiguous in an edge id, names and MACs not ambiguous. -/
def IngestCall.Clean (c : IngestCall) : Prop :=
  CleanID c.pkt.srcIP ∧ CleanID c.pkt.dstIP ∧ SepFree c.srcHostname ∧ SepFree c.dstHostname
    ∧ SepFree c.pkt.srcMAC ∧ SepFree c.pkt.dstMAC

instance (c : IngestCall) : Decidable c.Clean := by unfold IngestCall.Clean; infer_instance

/-- The endpoints a run of calls counts. -/
def endpointsOf (calls : List IngestCall) : List Endpoint :=
  calls.flatMap fun c => [⟨c.pkt.srcIP, c.pkt.length⟩, ⟨c.pkt.dstIP, c.pkt.length⟩]

/-- The packets a run of calls counts. -/
def packetsOf (calls : List IngestCall) : List PacketInfo := calls.map IngestCall.pkt

section Ingest

variable [RuneCase]

def IngestCall.apply (m : Manager) (c : IngestCall) : Manager :=
  m.ingest c.pkt c.srcHostname c.dstHostname c.clock

/-- After the source endpoint is counted. -/
def IngestCall.afterSrc (m : Manager) (c : IngestCall) : Manager :=
  { m with dirty := true }.addOrUpdateNodeLocked c.pkt.srcIP c.srcHostname c.pkt.length
    c.clock.srcSeen

/-- After both endpoints are counted. -/
def IngestCall.afterEndpoints (m : Manager) (c : IngestCall) : Manager :=
  (c.afterSrc m).addOrUpdateNodeLocked c.pkt.dstIP c.dstHostname c.pkt.length c.clock.dstSeen

/-- After the source MAC is recorded. -/
def IngestCall.afterSrcMAC (m : Manager) (c : IngestCall) : Manager :=
  (c.afterEndpoints m).recordEndpointMAC c.pkt.srcIP c.pkt.srcMAC c.clock.srcMAC

/-- After both MACs are recorded. -/
def IngestCall.afterMACs (m : Manager) (c : IngestCall) : Manager :=
  (c.afterSrcMAC m).recordEndpointMAC c.pkt.dstIP c.pkt.dstMAC c.clock.dstMAC

/-- After the edge is counted. -/
def IngestCall.afterEdge (m : Manager) (c : IngestCall) : Manager :=
  (c.afterMACs m).addOrUpdateEdgeLocked c.pkt.srcIP c.pkt.dstIP c.pkt.protocol c.pkt.length
    c.clock.edgeSeen

/-- The parts of a call, in order. -/
theorem IngestCall.apply_eq (m : Manager) (c : IngestCall) :
    c.apply m = ((c.afterEdge m).addPortObservationLocked c.pkt.srcIP c.pkt.dstIP
      c.pkt.dstPort).stampDeviceInfoLocked c.pkt := rfl

/-- The graph a run of `Ingest` calls builds. -/
def ingestAll (calls : List IngestCall) : Manager := Run.exec IngestCall.apply newManager calls

theorem recordEndpointMAC_names_clean {ip mac : String} {now : Int} (hn : NamesClean m)
    (hmac : SepFree mac) : NamesClean (m.recordEndpointMAC ip mac now) := by
  intro h id hl
  rcases recordEndpointMAC_names hl with ⟨hne, rfl⟩ | hl
  · exact ⟨hne, hmac⟩
  · exact hn h id hl

omit [RuneCase] in
theorem addOrUpdateEdge_names (m : Manager) (srcIP dstIP : String) (protocol : Protocol)
    (bytes : Nat) (now : Int) :
    (m.addOrUpdateEdgeLocked srcIP dstIP protocol bytes now).hostnameToNodeID
      = m.hostnameToNodeID := by
  unfold addOrUpdateEdgeLocked countOnEdge addPeersLocked
  dsimp only
  repeat' split
  all_goals rfl

omit [RuneCase] in
theorem addPortObservation_names (m : Manager) (srcIP dstIP : String) (dstPort : UInt16) :
    (m.addPortObservationLocked srcIP dstIP dstPort).hostnameToNodeID = m.hostnameToNodeID := rfl

omit [RuneCase] in
theorem stampDeviceInfo_names (m : Manager) (pkt : PacketInfo) :
    (m.stampDeviceInfoLocked pkt).hostnameToNodeID = m.hostnameToNodeID := by
  unfold stampDeviceInfoLocked
  repeat' split
  all_goals rfl

/-! ## Ledgers -/

/-- An invariant about the histories that everything `Ingest` does takes along. -/
structure Ledger (P : Manager → String → String → Prop)
    (I : List Endpoint → List PacketInfo → Manager → Prop) : Prop where
  bound : ∀ {evs pkts m}, I evs pkts m → Bound evs pkts m
  kept : ∀ {evs pkts m m'}, NodesKept m m' → m'.edges = m.edges → I evs pkts m → I evs pkts m'
  merge : ∀ {evs pkts m newID oldID hostname}, oldID ≠ newID → CleanID newID →
    (∃ n, m.nodes.lookup oldID = some n) → P m newID oldID → I evs pkts m →
    I evs pkts (m.mergeNodeInto newID oldID hostname)
  endpoint : ∀ {evs pkts m nodeID ip hostname bytes now},
    (∀ k, m.ipToNodeID.lookup ip = some k → k = nodeID) → CleanID nodeID → CleanID ip →
    I evs pkts m →
    I (evs ++ [⟨ip, bytes⟩]) pkts (m.countEndpoint nodeID ip hostname bytes now)
  packet : ∀ {evs pkts m pkt a b now}, m.ipToNodeID.lookup pkt.srcIP = some a →
    m.ipToNodeID.lookup pkt.dstIP = some b → I evs pkts m →
    I evs (pkts ++ [pkt])
      (m.addOrUpdateEdgeLocked pkt.srcIP pkt.dstIP pkt.protocol pkt.length now)

variable {P : Manager → String → String → Prop}
  {I : List Endpoint → List PacketInfo → Manager → Prop}

/-- The merge of one counted endpoint meets `P`. -/
def nodeMerges (P : Manager → String → String → Prop) (m : Manager) (ip hostname : String) : Prop :=
  m.previousMerges P ip (nodeHostname ip hostname) (m.nodeIDFor ip (nodeHostname ip hostname))

/-- Every merge of one `Ingest` meets `P` in the state it is made in. -/
def IngestCall.Merges (P : Manager → String → String → Prop) (m : Manager) (c : IngestCall) :
    Prop :=
  nodeMerges P { m with dirty := true } c.pkt.srcIP c.srcHostname
    ∧ nodeMerges P (c.afterSrc m) c.pkt.dstIP c.dstHostname
    ∧ (c.afterEndpoints m).endpointMerges P c.pkt.srcIP c.pkt.srcMAC c.clock.srcMAC
    ∧ (c.afterSrcMAC m).endpointMerges P c.pkt.dstIP c.pkt.dstMAC c.clock.dstMAC

instance [∀ m a b, Decidable (P m a b)] (m : Manager) (c : IngestCall) :
    Decidable (c.Merges P m) := by
  unfold IngestCall.Merges nodeMerges; infer_instance

theorem Ledger.closed (hL : Ledger P I) (evs : List Endpoint) (pkts : List PacketInfo) :
    Closed CleanID P (I evs pkts) where
  kept hk h := hL.kept hk.toNodesKept hk.edges h
  admissible h hl := (hL.bound h).clean _ _ hl
  resolves ip h hl _ := (hL.bound h).resolves ip _ hl
  merge := hL.merge

theorem Ledger.addOrUpdateNode (hL : Ledger P I) {ip hostname : String} (bytes : Nat) (now : Int)
    (hip : CleanID ip) (hname : SepFree hostname) (hP : nodeMerges P m ip hostname)
    (h : I evs pkts m ∧ NamesClean m) :
    I (evs ++ [⟨ip, bytes⟩]) pkts (m.addOrUpdateNodeLocked ip hostname bytes now)
      ∧ NamesClean (m.addOrUpdateNodeLocked ip hostname bytes now) := by
  obtain ⟨hI, hn⟩ := h
  have hid := nodeIDFor_clean hn hip (nodeHostname_sepFree ip hname)
  have hprev := mergePrevious_preserves (hL.closed evs pkts) hid hP hI
  have hself : ∀ k, (m.mergePrevious ip (nodeHostname ip hostname)
      (m.nodeIDFor ip (nodeHostname ip hostname))).ipToNodeID.lookup ip = some k →
      k = m.nodeIDFor ip (nodeHostname ip hostname) :=
    fun k hl => mergePrevious_lookup_self ((hL.bound hI).lookup_ne_empty ip) hl
  exact ⟨hL.endpoint hself hid hip hprev, addOrUpdateNode_names hn hname⟩

theorem Ledger.recordEndpointMAC (hL : Ledger P I) {ip mac : String} {now : Int}
    (hmac : SepFree mac)
    (hP : m.endpointMerges P ip mac now) (h : I evs pkts m ∧ NamesClean m) :
    I evs pkts (m.recordEndpointMAC ip mac now) ∧ NamesClean (m.recordEndpointMAC ip mac now) :=
  ⟨recordEndpointMAC_preserves (hL.closed evs pkts) (fun hne => ⟨hne, hmac⟩) hP h.1,
    recordEndpointMAC_names_clean h.2 hmac⟩

/-- One packet adds its two endpoints and itself to the history. -/
theorem Ledger.ingest (hL : Ledger P I) (m : Manager) (c : IngestCall) (hc : c.Clean)
    (hP : c.Merges P m) (h : I evs pkts m ∧ NamesClean m) :
    I (evs ++ [⟨c.pkt.srcIP, c.pkt.length⟩, ⟨c.pkt.dstIP, c.pkt.length⟩]) (pkts ++ [c.pkt])
        (c.apply m)
      ∧ NamesClean (c.apply m) := by
  obtain ⟨hsrc, hdst, hsh, hdh, hsm, hdm⟩ := hc
  obtain ⟨p1, p2, p3, p4⟩ := hP
  have h0 : I evs pkts { m with dirty := true } ∧ NamesClean { m with dirty := true } :=
    ⟨hL.kept (NodesKept.of_nodes_eq (m := m) rfl rfl) rfl h.1, h.2⟩
  have h1 := hL.addOrUpdateNode c.pkt.length c.clock.srcSeen hsrc hsh p1 h0
  have h2 := hL.addOrUpdateNode c.pkt.length c.clock.dstSeen hdst hdh p2 h1
  have h3 := hL.recordEndpointMAC hsm p3 h2
  have h4 := hL.recordEndpointMAC hdm p4 h3
  rw [List.append_assoc] at h4
  have hseen := (hL.bound h4.1).seen
  obtain ⟨a, ha⟩ := hseen ⟨c.pkt.srcIP, c.pkt.length⟩ (by simp)
  obtain ⟨b, hb⟩ := hseen ⟨c.pkt.dstIP, c.pkt.length⟩ (by simp)
  have hports := addPortObservationLocked_kept (c.afterEdge m) c.pkt.srcIP c.pkt.dstIP c.pkt.dstPort
  have hstamp := stampDeviceInfoLocked_kept ((c.afterEdge m).addPortObservationLocked c.pkt.srcIP
    c.pkt.dstIP c.pkt.dstPort) c.pkt
  have h5 : I _ (pkts ++ [c.pkt]) (c.afterEdge m) := hL.packet ha hb h4.1
  refine ⟨hL.kept hstamp.toNodesKept hstamp.edges (hL.kept hports.toNodesKept hports.edges h5), ?_⟩
  have hnames : (c.apply m).hostnameToNodeID = (c.afterMACs m).hostnameToNodeID := by
    rw [IngestCall.apply_eq, stampDeviceInfo_names, addPortObservation_names,
      IngestCall.afterEdge, addOrUpdateEdge_names]
  unfold NamesClean
  rw [hnames]
  exact h4.2

/-- **A ledger is kept by every run whose merges all meet its condition.** -/
theorem Ledger.run (hL : Ledger P I) (h0 : I [] [] newManager) {calls : List IngestCall}
    (hc : ∀ c ∈ calls, c.Clean)
    (hP : Run.Guarded IngestCall.apply (fun m c => c.Merges P m) newManager calls) :
    I (endpointsOf calls) (packetsOf calls) (ingestAll calls) := by
  have hrun : I (endpointsOf calls) (packetsOf calls) (ingestAll calls)
      ∧ NamesClean (ingestAll calls) := by
    refine Run.history_invariant
      (P := fun done m => I (endpointsOf done) (packetsOf done) m ∧ NamesClean m) ?_ ?_
      (Run.Guarded.and (Run.guarded_of_forall newManager hc) hP)
    · exact ⟨h0, fun h id hl => by simp [newManager] at hl⟩
    · intro done m c h hok
      have hstep := hL.ingest m c hok.1 hok.2 h
      rw [endpointsOf, packetsOf, List.flatMap_append, List.map_append]
      exact hstep
  exact hrun.1

/-- Some ledgers ask nothing of the merges. -/
theorem merges_true (calls : List IngestCall) (m : Manager) :
    Run.Guarded IngestCall.apply (fun m c => c.Merges (fun _ _ _ => True) m) m calls :=
  (Run.guarded_true m calls).mono fun _ _ _ => ⟨fun _ _ => trivial, fun _ _ => trivial,
    endpointMerges_of_forall (fun _ _ _ => trivial) _ _ _ _,
    endpointMerges_of_forall (fun _ _ _ => trivial) _ _ _ _⟩

end Ingest

end Etherchimp
