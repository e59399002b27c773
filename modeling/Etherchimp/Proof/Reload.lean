import Mathlib
import Etherchimp.Proof.Attribution
import Etherchimp.Proof.Ledger
import Etherchimp.Proof.Windows
import Etherchimp.Replay.Snapshot

/-!
# A reload and the packets it stands for

The packet path files every endpoint under its node and counts it there. The
store counts the raw endpoints and the raw edges, and a reload files those rows.
When every endpoint always carries one name, both file an endpoint under the same
node, `nodeOf`, so the nodes always agree: the rows of the endpoints under one node
add up to what the packets added there.

The edges agree except for one kind of packet. Between two endpoints of one node
the packet path counts a self-loop, and the reload takes the row of such an edge
for something a merge would have deleted, and skips it.
-/

namespace Etherchimp

open Manager Tally

/-! ## Where an endpoint is filed -/

/-- The node of an endpoint under its name. -/
def fileUnder (ip name : String) : String := if useHostname ip name then name else ip

/-- The node of an endpoint that always carries one name. -/
def nodeOf (host : String → String) (ip : String) : String :=
  fileUnder ip (nodeHostname ip (host ip))

/-- The name the store keeps of an endpoint. -/
def storedName (ip name : String) : String := if useHostname ip name then name else ""

/-- The name the store keeps files the endpoint as its own name does. -/
theorem fileUnder_storedName (ip name : String) :
    fileUnder ip (nodeHostname ip (storedName ip name)) = fileUnder ip (nodeHostname ip name) := by
  unfold nodeHostname
  cases groupAddressLabel ip with
  | some label => rfl
  | none =>
    unfold fileUnder storedName
    dsimp only [Option.getD_none]
    by_cases hu : useHostname ip name
    · rw [if_pos hu]
    · have hempty : ¬ useHostname ip "" := fun h => h.1 rfl
      rw [if_neg hu, if_neg hu, if_neg hempty]

theorem nodeOf_sepFree {host : String → String} {ip : String} (hip : SepFree ip)
    (hhost : SepFree (host ip)) : SepFree (nodeOf host ip) := by
  unfold nodeOf fileUnder
  split
  · exact nodeHostname_sepFree ip hhost
  · exact hip

/-- The counters of a node. -/
def Node.load (n : Node) : Load := (n.packetCount, n.byteCount)

/-- The counters and the group flag of a node. -/
def Node.tally (n : Node) : Load × Bool := (n.load, n.isGroup)

/-- The nodes of a graph are those of the endpoints counted so far. -/
structure Filed (host : String → String) (done : List (String × Load)) (m : Manager) : Prop where
  names : ∀ h id, m.hostnameToNodeID.lookup h = some id → id = h
  resolves : ∀ a, m.ipToNodeID.lookup a
    = if a ∈ done.map Prod.fst then some (nodeOf host a) else none
  loads : counters Node.load m.nodes = cell (done.map fun e => (nodeOf host e.1, e.2))
  groups : ∀ k n, m.nodes.lookup k = some n →
    (n.isGroup = true ↔ ∃ e ∈ done, nodeOf host e.1 = k ∧ (groupAddressLabel e.1).isSome = true)

variable {host : String → String} {done : List (String × Load)} {m m' : Manager}

theorem filed_init (host : String → String) : Filed host [] newManager where
  names := nofun
  resolves := fun _ => rfl
  loads := rfl
  groups := nofun

/-- Whatever keeps the lookups, the counters and the group flags. -/
theorem Filed.kept (h : Filed host done m) (hnames : m'.hostnameToNodeID = m.hostnameToNodeID)
    (hip : m'.ipToNodeID = m.ipToNodeID)
    (hnodes : ∀ k, (m'.nodes.lookup k).map Node.tally = (m.nodes.lookup k).map Node.tally) :
    Filed host done m' where
  names := by rw [hnames]; exact h.names
  resolves := by rw [hip]; exact h.resolves
  loads := by
    rw [← h.loads]
    funext k
    have hk := congrArg (Option.map Prod.fst) (hnodes k)
    rw [Option.map_map, Option.map_map] at hk
    exact hk
  groups := by
    intro k n' hl
    have hk := hnodes k
    rw [hl, Option.map_some] at hk
    obtain ⟨n, hn, ht⟩ := Option.map_eq_some_iff.mp hk.symm
    have hg : n'.isGroup = n.isGroup := (congrArg Prod.snd ht).symm
    rw [hg]
    exact h.groups k n hn

/-- Under names that lead to themselves, an endpoint's node is that of its name. -/
theorem Filed.nodeIDFor (h : Filed host done m) (ip name : String) :
    m.nodeIDFor ip name = fileUnder ip name := by
  unfold Manager.nodeIDFor fileUnder
  by_cases hu : useHostname ip name
  · rw [if_pos hu, if_pos hu]
    cases hl : m.hostnameToNodeID.lookup name with
    | none => rfl
    | some id => exact h.names name id hl
  · rw [if_neg hu, if_neg hu]

/-- No address changes its node, so nothing is merged. -/
theorem Filed.mergePrevious [RuneCase] (h : Filed host done m) (ip name : String) :
    m.mergePrevious ip name (nodeOf host ip) = { m with dirty := true }.claimHostname ip name := by
  unfold Manager.mergePrevious
  dsimp only
  rw [if_neg]
  rintro ⟨hne, hother⟩
  rw [h.resolves] at hne hother
  by_cases hin : ip ∈ done.map Prod.fst
  · rw [if_pos hin] at hother
    exact hother rfl
  · rw [if_neg hin] at hne
    exact hne rfl

theorem Filed.claimHostname (h : Filed host done m) (ip name : String) :
    Filed host done ({ m with dirty := true }.claimHostname ip name) := by
  unfold Manager.claimHostname
  split
  · refine ⟨?_, h.resolves, h.loads, h.groups⟩
    intro a id hl
    dsimp only at hl
    rw [KeyedMap.lookup_insert_eq] at hl
    split at hl
    · rename_i ha
      rw [← Option.some.inj hl, ha]
    · exact h.names a id hl
  · exact ⟨h.names, h.resolves, h.loads, h.groups⟩

section Path

variable [RuneCase]

/-- What counting an endpoint does to the counters and the group flags. -/
theorem countEndpoint_tally (m : Manager) (nodeID ip hostname : String) (bytes : Nat) (now : Int)
    (k : String) :
    ((m.countEndpoint nodeID ip hostname bytes now).nodes.lookup k).map Node.tally
      = if k = nodeID then
          some (((m.nodes.lookup nodeID).elim 0 Node.load + (1, bytes)),
            (m.nodes.lookup nodeID).elim false Node.isGroup || (groupAddressLabel ip).isSome)
        else (m.nodes.lookup k).map Node.tally := by
  unfold countEndpoint
  dsimp only
  cases m.nodes.lookup nodeID with
  | none =>
    dsimp only
    rw [KeyedMap.lookup_insert_eq]
    by_cases hk : k = nodeID
    · rw [if_pos hk, if_pos hk]
      show some ((1, bytes), (groupAddressLabel ip).isSome) = some ((0 : Load) + (1, bytes), _)
      rw [zero_add]
      rfl
    · rw [if_neg hk, if_neg hk]
  | some n =>
    dsimp only
    rw [KeyedMap.lookup_insert_eq]
    by_cases hk : k = nodeID
    · rw [if_pos hk, if_pos hk]
      unfold seeNode
      cases hg : (groupAddressLabel ip).isSome with
      | false =>
        simp only [Option.elim_some, Bool.or_false, Bool.false_eq_true, if_false]
        repeat' split
        all_goals rfl
      | true =>
        simp only [Option.elim_some, Bool.or_true, if_true]
        repeat' split
        all_goals rfl
    · rw [if_neg hk, if_neg hk]

/-- Counting an endpoint at its node. -/
theorem Filed.countEndpoint (h : Filed host done m) (ip hostname : String) (bytes : Nat)
    (now : Int) :
    Filed host (done ++ [(ip, (1, bytes))])
      (m.countEndpoint (nodeOf host ip) ip hostname bytes now) where
  names := by rw [countEndpoint_names]; exact h.names
  resolves := by
    intro a
    rw [countEndpoint_ipToNodeID, KeyedMap.lookup_insert_eq, List.map_append, List.map_singleton]
    by_cases ha : a = ip
    · rw [if_pos ha, if_pos (by rw [ha]; simp), ha]
    · rw [if_neg ha, h.resolves]
      exact if_congr (by simp [ha]) rfl rfl
  loads := by
    rw [List.map_append, List.map_singleton, cell_concat, ← h.loads]
    funext k
    have hk := congrArg (Option.map Prod.fst)
      (countEndpoint_tally m (nodeOf host ip) ip hostname bytes now k)
    rw [Option.map_map] at hk
    refine hk.trans ?_
    unfold bump counters
    split
    · rw [Option.map_some]
      cases m.nodes.lookup (nodeOf host ip) <;> rfl
    · rw [Option.map_map]
      rfl
  groups := by
    intro k n hl
    have hk := countEndpoint_tally m (nodeOf host ip) ip hostname bytes now k
    rw [hl, Option.map_some] at hk
    have hnew : (∃ e ∈ done ++ [(ip, ((1, bytes) : Load))],
          nodeOf host e.1 = k ∧ (groupAddressLabel e.1).isSome = true)
        ↔ (∃ e ∈ done, nodeOf host e.1 = k ∧ (groupAddressLabel e.1).isSome = true)
          ∨ (nodeOf host ip = k ∧ (groupAddressLabel ip).isSome = true) := by
      simp only [List.mem_append, List.mem_singleton, or_and_right, exists_or, exists_eq_left]
    rw [hnew]
    by_cases hkid : k = nodeOf host ip
    · rw [if_pos hkid] at hk
      have hg := congrArg Prod.snd (Option.some.inj hk)
      dsimp only [Node.tally] at hg
      rw [hg, Bool.or_eq_true, hkid]
      cases hold : m.nodes.lookup (nodeOf host ip) with
      | some n₀ =>
        rw [Option.elim_some, h.groups _ n₀ hold]
        simp
      | none =>
        -- a node that is new has no earlier endpoint
        have hcell := congrFun h.loads (nodeOf host ip)
        unfold counters at hcell
        rw [hold] at hcell
        have hfresh := cell_eq_none.mp hcell.symm
        have hno : ¬ ∃ e ∈ done, nodeOf host e.1 = nodeOf host ip
            ∧ (groupAddressLabel e.1).isSome = true := by
          rintro ⟨e, he, heq, -⟩
          refine hfresh (List.mem_map.mpr ⟨(nodeOf host e.1, e.2), ?_, heq⟩)
          exact List.mem_map.mpr ⟨e, he, rfl⟩
        simp [hno]
    · rw [if_neg hkid] at hk
      obtain ⟨n₀, hn₀, ht⟩ := Option.map_eq_some_iff.mp hk.symm
      have hg : n.isGroup = n₀.isGroup := (congrArg Prod.snd ht).symm
      rw [hg, h.groups k n₀ hn₀]
      simp [Ne.symm hkid]

/-- **One endpoint of the packet path or one row of a reload.** -/
theorem Filed.addOrUpdateNode (h : Filed host done m) {ip hostname : String} (bytes : Nat)
    (now : Int) (hname : fileUnder ip (nodeHostname ip hostname) = nodeOf host ip) :
    Filed host (done ++ [(ip, (1, bytes))])
      (m.addOrUpdateNodeLocked ip hostname bytes now) := by
  unfold addOrUpdateNodeLocked
  dsimp only
  rw [h.nodeIDFor, hname, h.mergePrevious]
  exact (h.claimHostname ip (nodeHostname ip hostname)).countEndpoint ip _ bytes now

/-- Counting an endpoint merges nothing, so the edges stay. -/
theorem Filed.addOrUpdateNode_edges (h : Filed host done m) {ip hostname : String} (bytes : Nat)
    (now : Int) (hname : fileUnder ip (nodeHostname ip hostname) = nodeOf host ip) :
    (m.addOrUpdateNodeLocked ip hostname bytes now).edges = m.edges := by
  unfold addOrUpdateNodeLocked
  dsimp only
  rw [h.nodeIDFor, hname, h.mergePrevious, countEndpoint_edges]
  exact (claimHostname_kept m ip _).edges

end Path

/-! ## The edges of the packet path -/

/-- The counters of an edge, in all and each way. -/
def Edge.split (e : Edge) : Counters :=
  ((e.packetCount, e.byteCount), (e.forwardPackets, e.forwardBytes),
    (e.reversePackets, e.reverseBytes))

/-- The edges are those of the entries, under canonical ids. -/
structure EdgesFiled (l : List (String × Counters)) (m : Manager) : Prop where
  wellKeyed : WellKeyed m.edges
  splits : counters Edge.split m.edges = cell l

variable {l : List (String × Counters)}

theorem edgesFiled_init : EdgesFiled [] newManager where
  wellKeyed := nofun
  splits := rfl

theorem EdgesFiled.kept (h : EdgesFiled l m) (he : m'.edges = m.edges) : EdgesFiled l m' where
  wellKeyed := by rw [he]; exact h.wellKeyed
  splits := by rw [he]; exact h.splits

theorem EdgesFiled.congr {l' : List (String × Counters)} (h : EdgesFiled l m)
    (hl : cell l = cell l') : EdgesFiled l' m where
  wellKeyed := h.wellKeyed
  splits := h.splits.trans hl

/-- One edge is new or has counted more. -/
theorem EdgesFiled.insert (h : EdgesFiled l m) {a b : String} {x : Counters} (edge : Edge)
    (ha : SepFree a) (hb : SepFree b)
    (he : ∀ k, m'.edges.lookup k = if k = canonKey a b then some edge else m.edges.lookup k)
    (hnew : m.edges.lookup (canonKey a b) = none →
      (edge.id, edge.fromID, edge.toID) = getCanonicalEdgeID a b ∧ edge.split = x)
    (hold : ∀ e, m.edges.lookup (canonKey a b) = some e →
      (edge.id, edge.fromID, edge.toID) = (e.id, e.fromID, e.toID) ∧ edge.split = e.split + x) :
    EdgesFiled (l ++ [(canonKey a b, x)]) m' where
  wellKeyed := by
    intro k e hl
    rw [he] at hl
    split at hl
    · rename_i hk
      rw [hk, ← Option.some.inj hl]
      cases hm : m.edges.lookup (canonKey a b) with
      | none =>
        obtain ⟨hends, -⟩ := hnew hm
        have hc : getCanonicalEdgeID a b = (canonKey a b, edge.fromID, edge.toID) :=
          Prod.ext rfl (congrArg Prod.snd hends).symm
        refine ⟨getCanonicalEdgeID_idem hc, congrArg Prod.fst hends, ?_⟩
        rcases getCanonicalEdgeID_cases a b with hcase | hcase
        · rw [hc] at hcase
          cases hcase
          exact ⟨ha, hb⟩
        · rw [hc] at hcase
          cases hcase
          exact ⟨hb, ha⟩
      | some e₀ =>
        obtain ⟨hends, -⟩ := hold e₀ hm
        rw [Prod.mk.injEq, Prod.mk.injEq] at hends
        rw [hends.1, hends.2.1, hends.2.2]
        exact h.wellKeyed _ e₀ hm
    · exact h.wellKeyed k e hl
  splits := by
    rw [cell_concat, ← h.splits]
    funext k
    unfold counters bump
    dsimp only
    rw [he]
    split
    · cases hm : m.edges.lookup (canonKey a b) with
      | none => simp [(hnew hm).2]
      | some e₀ => simp [(hold e₀ hm).2]
    · rfl

/-- The event as if its endpoints were their nodes. -/
def PacketEvent.filed (host : String → String) (ev : PacketEvent) : PacketEvent :=
  { ev with src := nodeOf host ev.src, dst := nodeOf host ev.dst }

theorem newEdge_split (key f t : String) (fwd : Bool) (protocol : Protocol) (bytes : Nat)
    (now : Int) : (newEdge key f t fwd protocol bytes now).split
      = ((1, bytes), if fwd then ((1, bytes), 0) else (0, (1, bytes))) := by
  cases fwd <;> rfl

theorem countPacket_split (e : Edge) (fwd : Bool) (protocol : Protocol) (bytes : Nat)
    (now : Int) : (countPacket e fwd protocol bytes now).split
      = e.split + ((1, bytes), if fwd then ((1, bytes), 0) else (0, (1, bytes))) := by
  unfold countPacket
  dsimp only
  cases fwd <;> cases protocol.generic <;> rfl

/-- The edge of a packet, between the nodes of its endpoints. -/
theorem EdgesFiled.addOrUpdateEdge (h : EdgesFiled l m) (ev : PacketEvent) {srcIP dstIP : String}
    (hsrc : m.resolve srcIP = ev.src) (hdst : m.resolve dstIP = ev.dst) (hs : SepFree ev.src)
    (hd : SepFree ev.dst) (protocol : Protocol) (now : Int) :
    EdgesFiled (l ++ [(ev.edgeID, ev.counters)])
      (m.addOrUpdateEdgeLocked srcIP dstIP protocol ev.length now) := by
  have hc : getCanonicalEdgeID (m.resolve srcIP) (m.resolve dstIP)
      = (ev.edgeID, ev.edge.2.1, ev.edge.2.2) := by
    rw [hsrc, hdst]
    rfl
  have hlook := addOrUpdateEdge_lookup m srcIP dstIP protocol ev.length now hc
  have hx : ∀ fwd : Bool, fwd = ev.isForward →
      (((1, ev.length) : Load), if fwd then (((1, ev.length) : Load), (0 : Load))
        else (0, (1, ev.length))) = ev.counters := by
    intro fwd hf
    rw [hf]
    rfl
  have hfwd : (decide (m.resolve srcIP = ev.edge.2.1)) = ev.isForward := by
    rw [hsrc]
    rfl
  refine h.insert _ hs hd hlook ?_ ?_
  · intro hm
    rw [show ev.edgeID = canonKey ev.src ev.dst from rfl, hm]
    exact ⟨rfl, (newEdge_split ..).trans (hx _ hfwd)⟩
  · intro e hm
    rw [show ev.edgeID = canonKey ev.src ev.dst from rfl, hm]
    obtain ⟨hf, ht, hid⟩ := countPacket_ends e (decide (m.resolve srcIP = ev.edge.2.1)) protocol
      ev.length now
    refine ⟨?_, (countPacket_split ..).trans (congrArg (e.split + ·) (hx _ hfwd))⟩
    exact Prod.ext hid (Prod.ext hf ht)

/-! ## The packet path -/

/-- Peers are no part of the counters. -/
theorem addPeersLocked_tally (m : Manager) (aID bID k : String) :
    ((m.addPeersLocked aID bID).nodes.lookup k).map Node.tally
      = (m.nodes.lookup k).map Node.tally := by
  have hadd : ∀ (nodes : KeyedMap String Node) (a b : String),
      ((addPeer nodes a b).lookup k).map Node.tally = (nodes.lookup k).map Node.tally := by
    intro nodes a b
    unfold addPeer
    rw [KeyedMap.lookup_adjust]
    split
    · rw [Option.map_map]
      rfl
    · rfl
  unfold addPeersLocked
  split
  · rfl
  · split
    · rfl
    · exact (hadd _ bID aID).trans (hadd m.nodes aID bID)

theorem addOrUpdateEdge_tally (m : Manager) (srcIP dstIP : String) (protocol : Protocol)
    (bytes : Nat) (now : Int) (k : String) :
    ((m.addOrUpdateEdgeLocked srcIP dstIP protocol bytes now).nodes.lookup k).map Node.tally
      = (m.nodes.lookup k).map Node.tally := by
  have hpeers := addPeersLocked_tally (m.countProtocol protocol)
  unfold addOrUpdateEdgeLocked countOnEdge
  dsimp only
  split
  · exact hpeers _ _ k
  · exact hpeers _ _ k

theorem Filed.addOrUpdateEdge (h : Filed host done m) (srcIP dstIP : String) (protocol : Protocol)
    (bytes : Nat) (now : Int) :
    Filed host done (m.addOrUpdateEdgeLocked srcIP dstIP protocol bytes now) :=
  h.kept (addOrUpdateEdge_names m srcIP dstIP protocol bytes now)
    (addOrUpdateEdgeLocked_nodesKept m srcIP dstIP protocol bytes now).ipTo
    (addOrUpdateEdge_tally m srcIP dstIP protocol bytes now)

/-- An endpoint that was counted resolves to its node. -/
theorem Filed.resolve (h : Filed host done m) {ip : String} (hip : ip ∈ done.map Prod.fst) :
    m.resolve ip = nodeOf host ip :=
  resolve_eq (by rw [h.resolves, if_pos hip])

/-- The event of a packet whose endpoints carry their names. -/
def PacketWithTime.named (captureID : Int) (host : String → String) (p : PacketWithTime) :
    PacketEvent := p.event captureID (host p.info.srcIP) (host p.info.dstIP)

/-- The graph of the packets, each adding its endpoints and its edge. -/
def replayGraph [RuneCase] (host : String → String) (clock : Nat → IngestClock)
    (packets : List PacketWithTime) : Manager :=
  packets.zipIdx.foldl (fun m p =>
    m.addReplayed p.1.info (host p.1.info.srcIP) (host p.1.info.dstIP) (clock p.2)) newManager

/-- The endpoints and their names do not contain the separator. -/
def PacketWithTime.SepFree (host : String → String) (p : PacketWithTime) : Prop :=
  Etherchimp.SepFree p.info.srcIP ∧ Etherchimp.SepFree p.info.dstIP
    ∧ Etherchimp.SepFree (host p.info.srcIP) ∧ Etherchimp.SepFree (host p.info.dstIP)

instance (host : String → String) (p : PacketWithTime) : Decidable (p.SepFree host) :=
  inferInstanceAs (Decidable (_ ∧ _ ∧ _ ∧ _))

/-- The edge of a packet whose endpoints were counted. -/
theorem Filed.countEdge (h : Filed host done m) (he : EdgesFiled l m) (captureID : Int)
    {p : PacketWithTime} (hp : p.SepFree host) (hsrc : p.info.srcIP ∈ done.map Prod.fst)
    (hdst : p.info.dstIP ∈ done.map Prod.fst) (now : Int) :
    EdgesFiled (l ++ edgeTotals [(p.named captureID host).filed host])
      (m.addOrUpdateEdgeLocked p.info.srcIP p.info.dstIP p.info.protocol p.info.length now) := by
  obtain ⟨hs, hd, hsh, hdh⟩ := hp
  have hfiled : ((p.named captureID host).filed host).src = nodeOf host p.info.srcIP
      ∧ ((p.named captureID host).filed host).dst = nodeOf host p.info.dstIP
      ∧ ((p.named captureID host).filed host).length = p.info.length := by
    simp only [PacketEvent.filed, PacketWithTime.named, PacketWithTime.event, and_self]
  unfold edgeTotals
  rw [List.map_singleton]
  generalize (p.named captureID host).filed host = ev at hfiled ⊢
  obtain ⟨hes, hed, hel⟩ := hfiled
  rw [← hel]
  refine he.addOrUpdateEdge ev ((h.resolve hsrc).trans hes.symm) ((h.resolve hdst).trans hed.symm)
    ?_ ?_ p.info.protocol now
  · rw [hes]
    exact nodeOf_sepFree hs hsh
  · rw [hed]
    exact nodeOf_sepFree hd hdh

/-- Both endpoints of a packet. -/
theorem Filed.countEndpoints [RuneCase] (h : Filed host done m) (p : PacketInfo)
    (clock : IngestClock) :
    Filed host (done ++ [(p.srcIP, (1, p.length)), (p.dstIP, (1, p.length))])
        ((m.addOrUpdateNodeLocked p.srcIP (host p.srcIP) p.length
          clock.srcSeen).addOrUpdateNodeLocked p.dstIP (host p.dstIP) p.length clock.dstSeen)
      ∧ ((m.addOrUpdateNodeLocked p.srcIP (host p.srcIP) p.length
          clock.srcSeen).addOrUpdateNodeLocked p.dstIP (host p.dstIP) p.length
          clock.dstSeen).edges = m.edges := by
  have hname : ∀ ip, fileUnder ip (nodeHostname ip (host ip)) = nodeOf host ip := fun _ => rfl
  have h1 := h.addOrUpdateNode p.length clock.srcSeen (hname p.srcIP)
  have h2 := h1.addOrUpdateNode p.length clock.dstSeen (hname p.dstIP)
  rw [List.append_assoc] at h2
  refine ⟨h2, (h1.addOrUpdateNode_edges p.length clock.dstSeen (hname p.dstIP)).trans ?_⟩
  exact h.addOrUpdateNode_edges p.length clock.srcSeen (hname p.srcIP)

/-- One packet adds its two endpoints and its edge. -/
theorem Filed.addReplayed [RuneCase] {evs : List PacketEvent} (h : Filed host (endpointTotals evs) m)
    (he : EdgesFiled (edgeTotals (evs.map (·.filed host))) m) (captureID : Int)
    {p : PacketWithTime} (hp : p.SepFree host) (clock : IngestClock) :
    Filed host (endpointTotals (evs ++ [p.named captureID host]))
        (m.addReplayed p.info (host p.info.srcIP) (host p.info.dstIP) clock)
      ∧ EdgesFiled (edgeTotals ((evs ++ [p.named captureID host]).map (·.filed host)))
          (m.addReplayed p.info (host p.info.srcIP) (host p.info.dstIP) clock) := by
  have hends : endpointTotals (evs ++ [p.named captureID host])
      = endpointTotals evs ++ [(p.info.srcIP, (1, p.info.length)),
        (p.info.dstIP, (1, p.info.length))] := List.flatMap_append
  have hedges : edgeTotals ((evs ++ [p.named captureID host]).map (·.filed host))
      = edgeTotals (evs.map (·.filed host)) ++ edgeTotals [(p.named captureID host).filed host] := by
    rw [List.map_append]
    exact List.map_append
  unfold Manager.addReplayed
  dsimp only
  rw [hends, hedges]
  obtain ⟨h2, hsame⟩ := h.countEndpoints p.info clock
  have he2 := he.kept hsame
  generalize ((m.addOrUpdateNodeLocked p.info.srcIP _ _ _).addOrUpdateNodeLocked _ _ _ _) = m₂
    at h2 he2 ⊢
  refine ⟨h2.addOrUpdateEdge .., h2.countEdge he2 captureID hp ?_ ?_ _⟩
  · rw [List.map_append]
    exact List.mem_append_right _ (by simp)
  · rw [List.map_append]
    exact List.mem_append_right _ (by simp)

/-- **The graph of the packet path**, filed packet by packet. -/
theorem replayGraph_filed [RuneCase] (captureID : Int) (clock : Nat → IngestClock)
    {packets : List PacketWithTime} (hclean : ∀ p ∈ packets, p.SepFree host) :
    Filed host (endpointTotals (packets.map (·.named captureID host)))
        (replayGraph host clock packets)
      ∧ EdgesFiled (edgeTotals ((packets.map (·.named captureID host)).map (·.filed host)))
          (replayGraph host clock packets) := by
  induction packets using List.reverseRecOn with
  | nil => exact ⟨filed_init host, edgesFiled_init⟩
  | append_singleton packets p ih =>
    obtain ⟨h, he⟩ := ih fun q hq => hclean q (List.mem_append_left _ hq)
    have hp := hclean p (List.mem_append_right _ (List.mem_singleton_self p))
    unfold replayGraph at h he ⊢
    rw [List.zipIdx_append, List.foldl_append, List.zipIdx_singleton, List.foldl_cons,
      List.foldl_nil, List.map_append, List.map_singleton]
    exact h.addReplayed he captureID hp _

/-! ## The rows of a reload -/

def BulkNode.load (n : BulkNode) : Load := (n.packetCount, n.byteCount)

def BulkEdge.counters (e : BulkEdge) : Counters :=
  ((e.packetCount, e.byteCount), (e.forwardPackets, e.forwardBytes),
    (e.reversePackets, e.reverseBytes))

/-- The directional halves, exchanged or not. -/
def turn : Bool → Counters →+ Counters
  | false => AddMonoidHom.id Counters
  | true => ⟨⟨fun c => (c.1, c.2.2, c.2.1), rfl⟩, fun _ _ => rfl⟩

/-- The two are different endpoints of one node. -/
def Collapses (host : String → String) (a b : String) : Prop :=
  a ≠ b ∧ nodeOf host a = nodeOf host b

instance (host : String → String) (a b : String) : Decidable (Collapses host a b) :=
  inferInstanceAs (Decidable (_ ∧ _))

/-- The nodes of two endpoints stand in the other order. -/
def turned (host : String → String) (f t : String) : Bool :=
  (getCanonicalEdgeID (nodeOf host f) (nodeOf host t)).2.1 ≠ nodeOf host f

/-- What a stored edge adds, between the nodes of its endpoints. -/
def BulkEdge.entry (host : String → String) (e : BulkEdge) : String × Counters :=
  (canonKey (nodeOf host e.fromID) (nodeOf host e.toID),
    turn (turned host e.fromID e.toID) e.counters)

/-- What has been overwritten after some rows. -/
structure Overwritten (m : Manager) (rows : List BulkNode)
    (s : KeyedMap String Node × List String) : Prop where
  zeroed : ∀ k, k ∈ s.2 ↔ k ∈ rows.map fun n => m.resolve n.id
  loads : ∀ k ∈ s.2, counters Node.load s.1 k
    = cell (rows.map fun n => (m.resolve n.id, n.load)) k
  groups : ∀ k, (s.1.lookup k).map Node.isGroup = (m.nodes.lookup k).map Node.isGroup

/-- One row replaces the counters of its node the first time and adds to them after. -/
theorem overwriteCounters_eq {s : KeyedMap String Node × List String} {n : BulkNode} {node : Node}
    (hl : s.1.lookup (m.resolve n.id) = some node) :
    ∃ node', (m.overwriteCounters s n).1 = s.1.insert (m.resolve n.id) node'
      ∧ node'.isGroup = node.isGroup
      ∧ node'.load = (if m.resolve n.id ∈ s.2 then node.load else 0) + n.load
      ∧ ∀ k, k ∈ (m.overwriteCounters s n).2 ↔ k ∈ s.2 ∨ k = m.resolve n.id := by
  unfold overwriteCounters
  dsimp only
  rw [hl]
  dsimp only
  by_cases hz : m.resolve n.id ∈ s.2
  · have hfirst : decide (m.resolve n.id ∉ s.2) = false := by simpa using hz
    simp only [hfirst, Bool.false_eq_true, if_false, if_pos hz]
    refine ⟨_, rfl, rfl, rfl, fun k => ⟨Or.inl, ?_⟩⟩
    rintro (hk | rfl)
    · exact hk
    · exact hz
  · have hfirst : decide (m.resolve n.id ∉ s.2) = true := by simpa using hz
    simp only [hfirst, if_true, if_neg hz]
    refine ⟨_, rfl, rfl, rfl, fun k => ?_⟩
    rw [List.mem_cons]
    exact or_comm

theorem Overwritten.step {rows : List BulkNode} {s : KeyedMap String Node × List String}
    (h : Overwritten m rows s) {n : BulkNode} (hn : ∃ x, m.nodes.lookup (m.resolve n.id) = some x) :
    Overwritten m (rows ++ [n]) (m.overwriteCounters s n) := by
  obtain ⟨x, hx⟩ := hn
  obtain ⟨node, hnode, hgroup⟩ : ∃ node, s.1.lookup (m.resolve n.id) = some node
      ∧ node.isGroup = x.isGroup := by
    have hg := h.groups (m.resolve n.id)
    rw [hx, Option.map_some] at hg
    exact Option.map_eq_some_iff.mp hg
  obtain ⟨node', hins, hgroup', hload, hzero⟩ := overwriteCounters_eq hnode
  -- the node's counters so far are those of the rows that were overwritten
  have hsofar : (cell (rows.map fun n => (m.resolve n.id, n.load)) (m.resolve n.id)).getD 0
      = if m.resolve n.id ∈ s.2 then node.load else 0 := by
    split
    · rename_i hz
      rw [← h.loads _ hz]
      unfold Tally.counters
      rw [hnode]
      rfl
    · rename_i hz
      rw [cell_eq_none.mpr]
      · rfl
      · rw [List.map_map]
        exact fun hk => hz ((h.zeroed _).mpr hk)
  refine ⟨?_, ?_, ?_⟩
  · intro k
    rw [hzero, h.zeroed, List.map_append, List.mem_append, List.map_singleton, List.mem_singleton]
  · intro k hk
    rw [List.map_append, List.map_singleton, cell_concat, hins]
    unfold Tally.counters bump
    rw [KeyedMap.lookup_insert_eq]
    split
    · rw [Option.map_some, hload, hsofar]
    · rename_i hne
      exact h.loads k (((hzero k).mp hk).resolve_right hne)
  · intro k
    rw [hins, KeyedMap.lookup_insert_eq]
    split
    · rename_i hk
      rw [hk, hx]
      exact congrArg some (hgroup'.trans hgroup)
    · exact h.groups k

theorem overwritten_all (m : Manager) {rows : List BulkNode}
    (hrows : ∀ n ∈ rows, ∃ x, m.nodes.lookup (m.resolve n.id) = some x) :
    Overwritten m rows (rows.foldl m.overwriteCounters (m.nodes, [])) := by
  induction rows using List.reverseRecOn with
  | nil => exact ⟨fun _ => Iff.rfl, nofun, fun _ => rfl⟩
  | append_singleton rows n ih =>
    rw [List.foldl_append, List.foldl_cons, List.foldl_nil]
    exact (ih fun n hn => hrows n (List.mem_append_left _ hn)).step
      (hrows n (List.mem_append_right _ (List.mem_singleton_self n)))

/-! ## Loading the rows -/

/-- The rows of the events: one an endpoint and one an edge, with their totals. -/
structure Rows (host : String → String) (evs : List PacketEvent) (nodes : List BulkNode)
    (edges : List BulkEdge) : Prop where
  nodeIDs : (nodes.map BulkNode.id).Nodup
  nodeCells : ∀ n ∈ nodes, cell (endpointTotals evs) n.id = some n.load
  names : ∀ n ∈ nodes, n.hostname = storedName n.id (host n.id)
  endpoints : ∀ e ∈ endpointTotals evs, ∃ n ∈ nodes, n.id = e.1
  edgeIDs : (edges.map fun e => canonKey e.fromID e.toID).Nodup
  edgeCells : ∀ e ∈ edges, cell (edgeTotals evs) (canonKey e.fromID e.toID) = some e.counters
  ends : ∀ ev ∈ evs, ∃ e ∈ edges, ev.edge.2 = (e.fromID, e.toID)
  events : ∀ e ∈ edges, ∃ ev ∈ evs, ev.edge.2 = (e.fromID, e.toID)

variable {evs : List PacketEvent} {nodes : List BulkNode} {edges : List BulkEdge}

/-- A row is the row of an endpoint. -/
theorem Rows.endpoint_iff (h : Rows host evs nodes edges) (a : String) :
    a ∈ nodes.map BulkNode.id ↔ a ∈ (endpointTotals evs).map Prod.fst := by
  constructor
  · intro ha
    obtain ⟨n, hn, rfl⟩ := List.mem_map.mp ha
    by_contra hno
    have hnone := cell_eq_none.mpr hno
    rw [h.nodeCells n hn] at hnone
    cases hnone
  · intro ha
    obtain ⟨e, he, rfl⟩ := List.mem_map.mp ha
    obtain ⟨n, hn, hid⟩ := h.endpoints e he
    exact List.mem_map.mpr ⟨n, hn, hid⟩

/-- The rows through the packet path, each counted as a packet of no bytes. -/
theorem Rows.bulkNodes [RuneCase] (h : Rows host evs nodes edges) (clock : Nat → Int) :
    Filed host (nodes.map fun n => (n.id, (1, 0))) (newManager.bulkNodes nodes clock)
      ∧ (newManager.bulkNodes nodes clock).edges = newManager.edges := by
  have hrun : ∀ rows : List BulkNode, (∀ n ∈ rows, n.hostname = storedName n.id (host n.id)) →
      Filed host (rows.map fun n => (n.id, (1, 0))) (newManager.bulkNodes rows clock)
        ∧ (newManager.bulkNodes rows clock).edges = newManager.edges := by
    intro rows hnames
    induction rows using List.reverseRecOn with
    | nil => exact ⟨filed_init host, rfl⟩
    | append_singleton rows n ih =>
      obtain ⟨hrows, hedges⟩ := ih fun n hn => hnames n (List.mem_append_left _ hn)
      have hn := hnames n (List.mem_append_right _ (List.mem_singleton_self n))
      have hfile := fileUnder_storedName n.id (host n.id)
      unfold Manager.bulkNodes at hrows hedges ⊢
      rw [List.zipIdx_append, List.foldl_append, List.zipIdx_singleton, List.foldl_cons,
        List.foldl_nil, List.map_append, List.map_singleton, hn]
      exact ⟨hrows.addOrUpdateNode 0 _ hfile, (hrows.addOrUpdateNode_edges 0 _ hfile).trans hedges⟩
  exact hrun nodes h.names

/-- **The counters of the rows replace those fake packets**: the nodes are those of the events. -/
theorem Rows.overwrite (h : Rows host evs nodes edges)
    (hb : Filed host (nodes.map fun n => (n.id, (1, 0))) m) :
    Filed host (endpointTotals evs)
      { m with nodes := (nodes.foldl m.overwriteCounters (m.nodes, [])).1 } := by
  have hids : (nodes.map fun n => (n.id, ((1, 0) : Load))).map Prod.fst = nodes.map BulkNode.id := by
    rw [List.map_map]
    rfl
  have hres : ∀ n ∈ nodes, m.resolve n.id = nodeOf host n.id := by
    intro n hn
    refine hb.resolve ?_
    rw [hids]
    exact List.mem_map_of_mem hn
  -- every row has a node, and every node has a row
  have hnode : ∀ k, (∃ x, m.nodes.lookup k = some x)
      ↔ k ∈ nodes.map fun n => nodeOf host n.id := by
    intro k
    rw [exists_iff_of_counters hb.loads, List.map_map, List.map_map]
    rfl
  have hover := overwritten_all m (fun n (hn : n ∈ nodes) => by
    rw [hres n hn, hnode]
    exact List.mem_map_of_mem hn)
  generalize nodes.foldl m.overwriteCounters (m.nodes, []) = s at hover ⊢
  have hcells : nodes.map (fun n => (m.resolve n.id, n.load))
      = nodes.map fun n => (nodeOf host n.id, n.load) :=
    List.map_congr_left fun n hn => by rw [hres n hn]
  refine ⟨hb.names, ?_, ?_, ?_⟩
  · intro a
    refine (hb.resolves a).trans (if_congr ?_ rfl rfl)
    rw [hids, h.endpoint_iff]
  · have hregroup : cell (nodes.map fun n => (nodeOf host n.id, n.load))
        = cell ((endpointTotals evs).map fun e => (nodeOf host e.1, e.2)) := by
      funext k
      have hval : ∀ n ∈ nodes, cell ((endpointTotals evs).map fun e => (e.1, e.2)) n.id
          = some n.load := by
        intro n hn
        rw [← h.nodeCells n hn]
        exact congrFun (congrArg cell (List.map_id' _)) _
      have hrow : ∀ n ∈ nodes, ∀ e ∈ endpointTotals evs, e.1 = n.id →
          nodeOf host e.1 = nodeOf host n.id ∧ e.2 = AddMonoidHom.id Load e.2 :=
        fun n _ e _ he => ⟨by rw [he], rfl⟩
      exact cell_regroup h.nodeIDs hval h.endpoints hrow k
    rw [← hregroup, ← hcells]
    funext k
    by_cases hk : k ∈ s.2
    · exact hover.loads k hk
    · have hno : k ∉ nodes.map fun n => m.resolve n.id := fun hm => hk ((hover.zeroed k).mpr hm)
      rw [cell_eq_none.mpr (by rw [List.map_map]; exact hno)]
      have hnone : m.nodes.lookup k = none := by
        refine Option.eq_none_iff_forall_ne_some.mpr fun x hx => hno ?_
        obtain ⟨n, hn, hnk⟩ := List.mem_map.mp ((hnode k).mp ⟨x, hx⟩)
        exact List.mem_map.mpr ⟨n, hn, (hres n hn).trans hnk⟩
      have hg := hover.groups k
      rw [hnone, Option.map_none, Option.map_eq_none_iff] at hg
      unfold Tally.counters
      dsimp only
      rw [hg]
      rfl
  · intro k n' hl
    have hg := hover.groups k
    dsimp only at hl
    rw [hl, Option.map_some] at hg
    obtain ⟨n, hn, heq⟩ := Option.map_eq_some_iff.mp hg.symm
    rw [← heq, hb.groups k n hn]
    have hmem : ∀ a, (∃ e ∈ nodes.map fun n => (n.id, ((1, 0) : Load)), e.1 = a)
        ↔ ∃ e ∈ endpointTotals evs, e.1 = a := by
      intro a
      rw [← List.mem_map, ← List.mem_map, hids, h.endpoint_iff]
    constructor
    · rintro ⟨e, he, hk, hgroup⟩
      obtain ⟨e', he', heq⟩ := (hmem e.1).mp ⟨e, he, rfl⟩
      exact ⟨e', he', by rw [heq, hk], by rw [heq]; exact hgroup⟩
    · rintro ⟨e, he, hk, hgroup⟩
      obtain ⟨e', he', heq⟩ := (hmem e.1).mpr ⟨e, he, rfl⟩
      exact ⟨e', he', by rw [heq, hk], by rw [heq]; exact hgroup⟩

/-- Loading an edge changes no counter of a node. -/
theorem Filed.bulkEdge (h : Filed host done m) (reg : Registry) (e : BulkEdge) (now : Int) :
    Filed host done (m.bulkEdge reg e now) := by
  refine h.kept ?_ (bulkEdge_nodesKept reg m e now).ipTo ?_
  · unfold Manager.bulkEdge addPeersLocked
    dsimp only
    repeat' split
    all_goals rfl
  · intro k
    have hpeers := addPeersLocked_tally m
    unfold Manager.bulkEdge
    dsimp only
    split
    · rfl
    · split
      · exact hpeers _ _ k
      · exact hpeers _ _ k

/-- The split of a row, turned to the order of its nodes. -/
theorem loadRow_split (e : BulkEdge) (flip : Bool) (id f t : String) (proto : Protocol)
    (now : Int) :
    ({ id := id, fromID := f, toID := t, protocol := proto
       packetCount := e.packetCount, byteCount := e.byteCount, lastSeen := now
       forwardPackets := if flip then e.reversePackets else e.forwardPackets
       reversePackets := if flip then e.forwardPackets else e.reversePackets
       forwardBytes := if flip then e.reverseBytes else e.forwardBytes
       reverseBytes := if flip then e.forwardBytes else e.reverseBytes } : Edge).split
      = turn flip e.counters := by
  cases flip <;> rfl

theorem absorbRow_split (edge : Edge) (e : BulkEdge) (flip : Bool) (proto : Protocol)
    (now : Int) :
    (absorbRow edge e (if flip then e.reversePackets else e.forwardPackets)
      (if flip then e.forwardPackets else e.reversePackets)
      (if flip then e.reverseBytes else e.forwardBytes)
      (if flip then e.forwardBytes else e.reverseBytes) proto now).split
      = edge.split + turn flip e.counters := by
  cases flip <;> rfl

/-- A stored edge adds its entry, unless it collapses. -/
theorem EdgesFiled.bulkEdge (h : EdgesFiled l m) (reg : Registry) {e : BulkEdge} (now : Int)
    (hf : m.resolve e.fromID = nodeOf host e.fromID) (ht : m.resolve e.toID = nodeOf host e.toID)
    (hfs : SepFree (nodeOf host e.fromID)) (hts : SepFree (nodeOf host e.toID)) :
    EdgesFiled (l ++ if Collapses host e.fromID e.toID then [] else [e.entry host])
      (m.bulkEdge reg e now) := by
  unfold Manager.bulkEdge
  dsimp only
  rw [hf, ht]
  by_cases hc : Collapses host e.fromID e.toID
  · rw [if_pos hc, if_pos ⟨hc.2, by simpa using hc.1⟩, List.append_nil]
    exact h
  · rw [if_neg hc, if_neg (fun hi => hc ⟨by simpa using hi.2, hi.1⟩)]
    rw [addPeersLocked_edges]
    unfold BulkEdge.entry turned
    rcases hc : getCanonicalEdgeID (nodeOf host e.fromID) (nodeOf host e.toID) with ⟨key, f, t⟩
    have hkey : canonKey (nodeOf host e.fromID) (nodeOf host e.toID) = key := congrArg Prod.fst hc
    dsimp only
    generalize decide (f ≠ nodeOf host e.fromID) = flip
    cases hm : m.edges.lookup key with
    | none =>
      refine h.insert _ hfs hts (fun k => ?_) (fun _ => ⟨hc.symm,
        loadRow_split e flip key f t (protoByName reg e.protocol) now⟩) ?_
      · rw [hkey]
        exact KeyedMap.lookup_insert_eq ..
      · intro e₀ he₀
        rw [hkey, hm] at he₀
        cases he₀
    | some edge =>
      refine h.insert (absorbRow edge e (if flip then e.reversePackets else e.forwardPackets)
        (if flip then e.forwardPackets else e.reversePackets)
        (if flip then e.reverseBytes else e.forwardBytes)
        (if flip then e.forwardBytes else e.reverseBytes) (protoByName reg e.protocol) now)
        hfs hts (fun k => ?_) ?_ ?_
      · rw [hkey]
        exact KeyedMap.lookup_insert_eq ..
      · intro hno
        rw [hkey, hm] at hno
        cases hno
      · intro e₀ he₀
        rw [hkey, hm] at he₀
        rw [← Option.some.inj he₀]
        exact ⟨rfl, absorbRow_split ..⟩

/-- The endpoints of a row resolve to their nodes, which the separator can be told from. -/
def BulkEdge.Resolves (host : String → String) (done : List (String × Load)) (e : BulkEdge) :
    Prop :=
  (e.fromID ∈ done.map Prod.fst ∧ SepFree (nodeOf host e.fromID))
    ∧ e.toID ∈ done.map Prod.fst ∧ SepFree (nodeOf host e.toID)

/-- The edge rows, one after the other. -/
theorem Filed.bulkEdges (h : Filed host done m) (he : EdgesFiled [] m) (reg : Registry)
    (clock : Nat → Int) {rows : List BulkEdge} (hrows : ∀ e ∈ rows, e.Resolves host done) :
    Filed host done (rows.zipIdx.foldl (fun m r => m.bulkEdge reg r.1 (clock r.2)) m)
      ∧ EdgesFiled ((rows.filter fun e => ¬ Collapses host e.fromID e.toID).map
          (BulkEdge.entry host))
        (rows.zipIdx.foldl (fun m r => m.bulkEdge reg r.1 (clock r.2)) m) := by
  induction rows using List.reverseRecOn with
  | nil => exact ⟨h, he⟩
  | append_singleton rows e ih =>
    obtain ⟨hm, hem⟩ := ih fun e he => hrows e (List.mem_append_left _ he)
    obtain ⟨⟨hf, hfs⟩, ht, hts⟩ :=
      hrows e (List.mem_append_right _ (List.mem_singleton_self e))
    rw [List.zipIdx_append, List.foldl_append, List.zipIdx_singleton, List.foldl_cons,
      List.foldl_nil, List.filter_append, List.map_append]
    refine ⟨hm.bulkEdge reg e _, ?_⟩
    have hstep := hem.bulkEdge reg (clock (0 + rows.length)) (hm.resolve hf) (hm.resolve ht) hfs hts
    have hentry : ([e].filter fun e => ¬ Collapses host e.fromID e.toID).map (BulkEdge.entry host)
        = if Collapses host e.fromID e.toID then [] else [e.entry host] := by
      by_cases hc : Collapses host e.fromID e.toID
      · simp [hc]
      · simp [hc]
    rw [hentry]
    exact hstep

/-! ## What the rows add up to -/

theorem collapses_comm (host : String → String) (a b : String) :
    Collapses host a b ↔ Collapses host b a :=
  and_congr ne_comm eq_comm

/-- A packet between two endpoints of one node. -/
def PacketEvent.Collapses (host : String → String) (ev : PacketEvent) : Prop :=
  Etherchimp.Collapses host ev.src ev.dst

instance (host : String → String) (ev : PacketEvent) : Decidable (ev.Collapses host) :=
  inferInstanceAs (Decidable (Etherchimp.Collapses ..))

/-- The ends of an edge are the endpoints, in one of the orders. -/
theorem PacketEvent.ends_cases {ev : PacketEvent} {f t : String} (h : ev.edge.2 = (f, t)) :
    (f = ev.src ∧ t = ev.dst) ∨ (f = ev.dst ∧ t = ev.src) := by
  have hcases := ev.edge_cases
  rw [h] at hcases
  exact hcases

theorem collapses_iff_of_ends {ev : PacketEvent} {f t : String} (h : ev.edge.2 = (f, t)) :
    Collapses host f t ↔ ev.Collapses host := by
  rcases ev.ends_cases h with ⟨rfl, rfl⟩ | ⟨rfl, rfl⟩
  · exact Iff.rfl
  · exact collapses_comm ..

@[simp] theorem PacketEvent.filed_src (ev : PacketEvent) :
    (ev.filed host).src = nodeOf host ev.src := by
  simp only [PacketEvent.filed]

@[simp] theorem PacketEvent.filed_load (ev : PacketEvent) : (ev.filed host).load = ev.load := by
  simp only [PacketEvent.load, PacketEvent.filed]

theorem PacketEvent.filed_edge (ev : PacketEvent) :
    (ev.filed host).edge = getCanonicalEdgeID (nodeOf host ev.src) (nodeOf host ev.dst) := by
  simp only [PacketEvent.edge_eq, PacketEvent.filed]

theorem PacketEvent.filed_edgeID (ev : PacketEvent) :
    (ev.filed host).edgeID = canonKey (nodeOf host ev.src) (nodeOf host ev.dst) := by
  simp only [PacketEvent.edgeID, canonKey, PacketEvent.filed_edge]

/-- An edge id is that of its ends. -/
theorem PacketEvent.ends_edgeID {ev : PacketEvent} {f t : String} (h : ev.edge.2 = (f, t)) :
    canonKey f t = ev.edgeID := by
  have hc : getCanonicalEdgeID ev.src ev.dst = (ev.edgeID, f, t) := Prod.ext rfl h
  rw [canonKey, getCanonicalEdgeID_idem hc]

theorem PacketEvent.counters_eq (ev : PacketEvent) :
    ev.counters = (ev.load, if ev.src = ev.edge.2.1 then (ev.load, 0) else (0, ev.load)) :=
  congrArg (Prod.mk ev.load) (if_congr decide_eq_true_iff rfl rfl)

/-- A packet weighs between the nodes what it weighs between the endpoints, turned with the row. -/
theorem PacketEvent.filed_entry {ev : PacketEvent} {f t : String} (h : ev.edge.2 = (f, t))
    (hc : ¬ ev.Collapses host) :
    (ev.filed host).edgeID = canonKey (nodeOf host f) (nodeOf host t)
      ∧ (ev.filed host).counters
        = turn (turned host f t) ev.counters := by
  have hfiled : (ev.filed host).counters = (ev.load,
      if nodeOf host ev.src = (getCanonicalEdgeID (nodeOf host ev.src) (nodeOf host ev.dst)).2.1
      then (ev.load, 0) else (0, ev.load)) := by
    rw [PacketEvent.counters_eq, filed_src, filed_edge, filed_load]
  have hraw : ev.counters = (ev.load, if ev.src = f then (ev.load, 0) else (0, ev.load)) := by
    rw [ev.counters_eq, h]
  have hcanon := getCanonicalEdgeID_cases (nodeOf host ev.src) (nodeOf host ev.dst)
  by_cases hf : ev.src = f
  · -- the packet goes the way of the stored edge
    have ht : t = ev.dst := by
      rcases ev.ends_cases h with ⟨-, ht⟩ | ⟨hd, hs⟩
      · exact ht
      · rw [hs, hf, hd]
    subst hf ht
    refine ⟨filed_edgeID ev, ?_⟩
    unfold turned
    rw [hfiled, hraw, if_pos rfl]
    by_cases hfwd : nodeOf host ev.src
        = (getCanonicalEdgeID (nodeOf host ev.src) (nodeOf host ev.dst)).2.1
    · rw [if_pos hfwd, decide_eq_false (not_not_intro hfwd.symm)]
      rfl
    · rw [if_neg hfwd, decide_eq_true (Ne.symm hfwd)]
      rfl
  · -- it goes the other way, between two different nodes
    obtain ⟨rfl, rfl⟩ : f = ev.dst ∧ t = ev.src :=
      (ev.ends_cases h).resolve_left fun hs => hf hs.1.symm
    have hne : nodeOf host ev.src ≠ nodeOf host ev.dst := fun heq => hc ⟨hf, heq⟩
    refine ⟨(filed_edgeID ev).trans (canonKey_comm _ _), ?_⟩
    unfold turned
    rw [hfiled, hraw, if_neg hf, getCanonicalEdgeID_comm (nodeOf host ev.dst)]
    rcases hcanon with hcase | hcase
    · rw [hcase]
      dsimp only
      rw [if_pos rfl, decide_eq_true hne]
      rfl
    · rw [hcase]
      dsimp only
      rw [if_neg hne, decide_eq_false (not_not_intro rfl)]
      rfl

/-- **The rows that do not collapse add up to the packets that do not.** -/
theorem Rows.edges_cell (h : Rows host evs nodes edges) (hclean : ∀ ev ∈ evs, ev.Clean) :
    cell ((edges.filter fun e => ¬ Collapses host e.fromID e.toID).map (BulkEdge.entry host))
      = cell (edgeTotals ((evs.filter fun ev => ¬ ev.Collapses host).map (·.filed host))) := by
  have hkept : ∀ e, e ∈ edges.filter (fun e => ¬ Collapses host e.fromID e.toID)
      ↔ e ∈ edges ∧ ¬ Collapses host e.fromID e.toID := by
    intro e
    rw [List.mem_filter, decide_eq_true_iff]
  have hkeptEv : ∀ ev, ev ∈ evs.filter (fun ev => ¬ ev.Collapses host)
      ↔ ev ∈ evs ∧ ¬ ev.Collapses host := by
    intro ev
    rw [List.mem_filter, decide_eq_true_iff]
  -- an event under the id of a row has the row's ends
  have hends : ∀ e ∈ edges, ∀ ev ∈ evs, ev.edgeID = canonKey e.fromID e.toID →
      ev.edge.2 = (e.fromID, e.toID) := by
    intro e he ev hev hid
    obtain ⟨ev', hev', hends'⟩ := h.events e he
    rw [edge_unique (hclean ev hev) (hclean ev' hev') (hid.trans (ev'.ends_edgeID hends'))]
    exact hends'
  have hval : ∀ e ∈ edges.filter (fun e => ¬ Collapses host e.fromID e.toID),
      cell ((evs.filter fun ev => ¬ ev.Collapses host).map fun ev => (ev.edgeID, ev.counters))
        (canonKey e.fromID e.toID) = some e.counters := by
    intro e he
    obtain ⟨he, hc⟩ := (hkept e).mp he
    have hcell := h.edgeCells e he
    have hsame : ∀ ev ∈ evs, ev.edgeID = canonKey e.fromID e.toID → ¬ ev.Collapses host := by
      intro ev hev hk
      rw [← collapses_iff_of_ends (hends e he ev hev hk)]
      exact hc
    unfold edgeTotals at hcell
    generalize canonKey e.fromID e.toID = k at hcell hsame
    have hiff : ∀ ev ∈ evs, ev.edgeID = k
        ↔ decide (¬ ev.Collapses host) = true ∧ ev.edgeID = k := by
      intro ev hev
      rw [decide_eq_true_iff]
      exact ⟨fun hk => ⟨hsame ev hev hk, hk⟩, fun hk => hk.2⟩
    rw [← hcell]
    exact (cell_reindex hiff).symm
  have hcover : ∀ ev ∈ evs.filter (fun ev => ¬ ev.Collapses host),
      ∃ e ∈ edges.filter (fun e => ¬ Collapses host e.fromID e.toID),
        canonKey e.fromID e.toID = ev.edgeID := by
    intro ev hev
    obtain ⟨hev, hc⟩ := (hkeptEv ev).mp hev
    obtain ⟨e, he, hev2⟩ := h.ends ev hev
    rw [← collapses_iff_of_ends hev2] at hc
    have hk : canonKey e.fromID e.toID = ev.edgeID := PacketEvent.ends_edgeID hev2
    have hmem := (hkept e).mpr ⟨he, hc⟩
    exact ⟨e, hmem, hk⟩
  have hrow : ∀ e ∈ edges.filter (fun e => ¬ Collapses host e.fromID e.toID),
      ∀ ev ∈ evs.filter (fun ev => ¬ ev.Collapses host), ev.edgeID = canonKey e.fromID e.toID →
        (ev.filed host).edgeID = canonKey (nodeOf host e.fromID) (nodeOf host e.toID)
          ∧ (ev.filed host).counters
            = turn (turned host e.fromID e.toID) ev.counters := by
    intro e he ev hev hid
    obtain ⟨he, -⟩ := (hkept e).mp he
    obtain ⟨hev, hc⟩ := (hkeptEv ev).mp hev
    exact ev.filed_entry (hends e he ev hev hid) hc
  have hnodup : ((edges.filter fun e => ¬ Collapses host e.fromID e.toID).map
      fun e => canonKey e.fromID e.toID).Nodup :=
    h.edgeIDs.sublist (List.filter_sublist.map _)
  -- from here on the directions are any
  unfold edgeTotals BulkEdge.entry
  generalize turned host = way at hrow ⊢
  rw [List.map_map]
  funext k
  exact cell_regroup hnodup hval hcover hrow k

/-! ## The rows of the aggregator -/

/-- The row of an endpoint. -/
def NodeAgg.bulk (n : NodeAgg) (id : String) : BulkNode := ⟨id, n.hostname, n.packets, n.bytes⟩

/-- The row of an edge. -/
def EdgeAgg.bulk (e : EdgeAgg) : BulkEdge :=
  ⟨e.fromID, e.toID, e.proto, e.packets, e.bytes, e.fwdP, e.revP, e.fwdB, e.revB⟩

/-- The aggregates of a capture's events. -/
def aggregateEvents (reg : Registry) (bucketSecs : Int) (evs : List PacketEvent) : Aggregator :=
  evs.foldl (Aggregator.apply reg) (newAggregator bucketSecs)

namespace Aggregator

def bulkNodes (a : Aggregator) : List BulkNode := a.nodes.entries.map fun e => e.2.bulk e.1.id

def bulkEdges (a : Aggregator) : List BulkEdge := a.edges.entries.map fun e => e.2.bulk

end Aggregator

/-- The events of one capture, each endpoint under its name. -/
structure Captured (captureID : Int) (host : String → String) (evs : List PacketEvent) : Prop where
  capture : ∀ ev ∈ evs, ev.captureID = captureID
  names : ∀ ev ∈ evs, ev.srcHost = host ev.src ∧ ev.dstHost = host ev.dst
  clean : ∀ ev ∈ evs, ev.Clean

/-- What the aggregator holds after the events. -/
structure Aggregated (host : String → String) (evs : List PacketEvent) (a : Aggregator) : Prop where
  nodes : counters NodeAgg.load a.nodes = cell (nodeHistory evs)
  edges : counters EdgeAgg.counters a.edges = cell (edgeHistory allCounters evs)
  names : ∀ k n, a.nodes.lookup k = some n → n.hostname = storedName k.id (host k.id)
  ends : ∀ k e, a.edges.lookup k = some e → ∃ ev ∈ evs, ev.edge = (k.id, e.fromID, e.toID)

theorem NodeAgg.count_hostname (n : NodeAgg) (id name : String) (length : Nat) (ts : Int)
    (h : n.hostname = "" ∨ n.hostname = storedName id name) :
    (n.count id name length ts).hostname = storedName id name := by
  unfold NodeAgg.count storedName at *
  dsimp only
  by_cases hu : useHostname id name
  · rw [if_pos hu]
    exact if_pos hu
  · rw [if_neg hu] at h ⊢
    exact (if_neg hu).trans (or_self_iff.mp h)

theorem Aggregated.countNode {a : Aggregator} {ev : PacketEvent} {id name : String}
    (h : ∀ k n, a.nodes.lookup k = some n → n.hostname = storedName k.id (host k.id))
    (hname : name = host id) :
    ∀ k n, (a.countNode ev id name).nodes.lookup k = some n →
      n.hostname = storedName k.id (host k.id) := by
  intro k n hl
  unfold Aggregator.countNode at hl
  dsimp only at hl
  rw [KeyedMap.lookup_insert_eq] at hl
  split at hl
  · rename_i hk
    rw [← Option.some.inj hl, hk, hname]
    refine NodeAgg.count_hostname _ id (host id) _ _ ?_
    cases hold : a.nodes.lookup ⟨ev.captureID, id⟩ with
    | none => exact Or.inl rfl
    | some n₀ => exact Or.inr (h _ n₀ hold)
  · exact h k n hl

theorem aggregateEvents_aggregated (reg : Registry) (bucketSecs captureID : Int)
    {evs : List PacketEvent} (hc : Captured captureID host evs) :
    Aggregated host evs (aggregateEvents reg bucketSecs evs) := by
  have hrun : ∀ evs : List PacketEvent,
      (∀ ev ∈ evs, ev.srcHost = host ev.src ∧ ev.dstHost = host ev.dst) →
      Aggregated host evs (aggregateEvents reg bucketSecs evs) := by
    intro evs hnames
    induction evs using List.reverseRecOn with
    | nil => exact ⟨rfl, rfl, nofun, nofun⟩
    | append_singleton evs ev ih =>
      have h := ih fun ev hev => hnames ev (List.mem_append_left _ hev)
      obtain ⟨hsrc, hdst⟩ := hnames ev (List.mem_append_right _ (List.mem_singleton_self ev))
      unfold aggregateEvents at h ⊢
      rw [List.foldl_append, List.foldl_cons, List.foldl_nil]
      generalize evs.foldl (Aggregator.apply reg) (newAggregator bucketSecs) = a at h ⊢
      refine ⟨?_, ?_, ?_, ?_⟩
      · rw [Aggregator.apply_nodes, h.nodes, nodeHistory_append, ← cell_concat, ← cell_concat,
          List.append_assoc]
        rfl
      · have hedge := Aggregator.apply_edges reg a ev allCounters
        rw [edgeHistory_append]
        refine hedge.trans ?_
        rw [show counters (fun e : EdgeAgg => allCounters e.counters) a.edges
          = cell (edgeHistory allCounters evs) from h.edges, ← cell_concat]
        rfl
      · exact Aggregated.countNode (Aggregated.countNode h.names hsrc) hdst
      · refine Aggregator.apply_edgeEnds reg a ev
          (P := fun k f t => ∃ ev' ∈ evs ++ [ev], ev'.edge = (k.id, f, t)) ?_ ?_
        · intro k e hl
          obtain ⟨ev', hev', he⟩ := h.ends k e hl
          exact ⟨ev', List.mem_append_left _ hev', he⟩
        · exact ⟨ev, List.mem_append_right _ (List.mem_singleton_self ev), rfl⟩
  exact hrun evs hc.names

section Aggregates

variable {a : Aggregator} {captureID : Int}

theorem Captured.filter_eq (hc : Captured captureID host evs) :
    evs.filter (·.captureID = captureID) = evs :=
  List.filter_eq_self.mpr fun ev hev => decide_eq_true (hc.capture ev hev)

/-- An endpoint's key is of the capture, and its aggregate holds the endpoint's totals. -/
theorem Aggregated.node_cell (h : Aggregated host evs a) (hc : Captured captureID host evs)
    {k : NodeKey} {n : NodeAgg} (hl : a.nodes.lookup k = some n) :
    k.captureID = captureID ∧ cell (endpointTotals evs) k.id = some n.load := by
  have hcell := congrFun h.nodes k
  unfold Tally.counters at hcell
  rw [hl, Option.map_some] at hcell
  obtain ⟨hk, -⟩ := cell_eq_some.mp hcell.symm
  obtain ⟨x, hx, hxk⟩ := List.mem_map.mp hk
  obtain ⟨ev, hev, hxev⟩ := List.mem_flatMap.mp hx
  have hcap : k.captureID = captureID := by
    rw [← hxk, ← hc.capture ev hev]
    rcases List.mem_cons.mp hxev with rfl | hxev
    · rfl
    · rw [List.mem_singleton.mp hxev]
  have htot := nodeHistory_cell evs captureID k.id
  rw [hc.filter_eq, ← hcap] at htot
  exact ⟨hcap, htot.symm.trans hcell.symm⟩

theorem Aggregated.edge_cell (h : Aggregated host evs a) (hc : Captured captureID host evs)
    {k : EdgeKey} {e : EdgeAgg} (hl : a.edges.lookup k = some e) :
    k.captureID = captureID ∧ cell (edgeTotals evs) k.id = some e.counters := by
  have hcell := congrFun h.edges k
  unfold Tally.counters at hcell
  rw [hl, Option.map_some] at hcell
  obtain ⟨hk, -⟩ := cell_eq_some.mp hcell.symm
  obtain ⟨x, hx, hxk⟩ := List.mem_map.mp hk
  obtain ⟨ev, hev, hxev⟩ := List.mem_map.mp hx
  have hcap : k.captureID = captureID := by
    rw [← hxk, ← hxev, ← hc.capture ev hev]
  have htot := edgeHistory_cell evs captureID k.id
  rw [hc.filter_eq, ← hcap] at htot
  exact ⟨hcap, htot.symm.trans hcell.symm⟩

theorem Aggregator.mem_bulkNodes {n : BulkNode} :
    n ∈ a.bulkNodes ↔ ∃ k x, a.nodes.lookup k = some x ∧ x.bulk k.id = n := by
  unfold Aggregator.bulkNodes
  rw [List.mem_map]
  constructor
  · exact fun ⟨e, hmem, hb⟩ => ⟨e.1, e.2, (KeyedMap.mem_entries_iff _ _ _).mp hmem, hb⟩
  · exact fun ⟨k, x, hl, hb⟩ => ⟨⟨k, x⟩, (KeyedMap.mem_entries_iff _ _ _).mpr hl, hb⟩

theorem Aggregator.mem_bulkEdges {e : BulkEdge} :
    e ∈ a.bulkEdges ↔ ∃ k x, a.edges.lookup k = some x ∧ x.bulk = e := by
  unfold Aggregator.bulkEdges
  rw [List.mem_map]
  constructor
  · exact fun ⟨e, hmem, hb⟩ => ⟨e.1, e.2, (KeyedMap.mem_entries_iff _ _ _).mp hmem, hb⟩
  · exact fun ⟨k, x, hl, hb⟩ => ⟨⟨k, x⟩, (KeyedMap.mem_entries_iff _ _ _).mpr hl, hb⟩

/-- An edge aggregate sits under the id of its ends. -/
theorem Aggregated.edge_id (h : Aggregated host evs a) {k : EdgeKey} {e : EdgeAgg}
    (hl : a.edges.lookup k = some e) : canonKey e.fromID e.toID = k.id := by
  obtain ⟨ev, -, hev⟩ := h.ends k e hl
  have hid : canonKey e.fromID e.toID = ev.edgeID :=
    PacketEvent.ends_edgeID (congrArg Prod.snd hev)
  exact hid.trans (congrArg Prod.fst hev)

/-- Entries of one capture have different ids. -/
theorem nodup_bulkIDs {κ ω β : Type} [DecidableEq κ] (m : KeyedMap κ ω) (capture : κ → Int)
    (id : κ → String) (hkeys : ∀ k x, m.lookup k = some x → capture k = captureID)
    (hinj : ∀ k k', capture k = capture k' → id k = id k' → k = k') (row : κ → ω → β)
    (rowID : β → String) (hrow : ∀ k x, m.lookup k = some x → rowID (row k x) = id k) :
    ((m.entries.map fun e => row e.1 e.2).map rowID).Nodup := by
  have hfilter : m.entries.filter (fun e => decide (capture e.1 = captureID)) = m.entries := by
    refine List.filter_eq_self.mpr fun e he => decide_eq_true ?_
    exact hkeys e.1 e.2 ((KeyedMap.mem_entries_iff _ _ _).mp he)
  have hids := nodup_ids m id (p := fun k => capture k = captureID) (by
    intro k k' hk hk' hid
    exact hinj k k' ((of_decide_eq_true hk).trans (of_decide_eq_true hk').symm) hid)
  rw [hfilter] at hids
  rw [List.map_map]
  refine (List.map_congr_left fun e he => ?_) ▸ hids
  exact (hrow e.1 e.2 ((KeyedMap.mem_entries_iff _ _ _).mp he)).symm

/-- **The aggregator's rows are the rows of the events**, in whatever order they are read. -/
theorem Aggregated.rows (h : Aggregated host evs a) (hc : Captured captureID host evs)
    (hn : nodes.Perm a.bulkNodes) (he : edges.Perm a.bulkEdges) : Rows host evs nodes edges where
  nodeIDs := by
    rw [(hn.map BulkNode.id).nodup_iff]
    refine nodup_bulkIDs a.nodes NodeKey.captureID NodeKey.id
      (fun k n hl => (h.node_cell hc hl).1) ?_ (fun k n => n.bulk k.id) BulkNode.id fun k n _ => rfl
    intro ⟨c, i⟩ ⟨c', i'⟩ hcap hid
    rw [NodeKey.mk.injEq]
    exact ⟨hcap, hid⟩
  nodeCells := by
    intro n hmem
    obtain ⟨k, x, hl, rfl⟩ := Aggregator.mem_bulkNodes.mp (hn.mem_iff.mp hmem)
    exact (h.node_cell hc hl).2
  names := by
    intro n hmem
    obtain ⟨k, x, hl, rfl⟩ := Aggregator.mem_bulkNodes.mp (hn.mem_iff.mp hmem)
    exact h.names k x hl
  endpoints := by
    intro e hmem
    have hcell : cell (endpointTotals evs) e.1 ≠ none := fun hnone =>
      cell_eq_none.mp hnone (List.mem_map_of_mem hmem)
    have hsame := nodeHistory_cell evs captureID e.1
    rw [hc.filter_eq] at hsame
    rw [← hsame, ne_eq, cell_eq_none, not_not, ← exists_iff_of_counters h.nodes] at hcell
    obtain ⟨x, hl⟩ := hcell
    exact ⟨x.bulk e.1, hn.mem_iff.mpr (Aggregator.mem_bulkNodes.mpr ⟨_, x, hl, rfl⟩), rfl⟩
  edgeIDs := by
    rw [(he.map fun e => canonKey e.fromID e.toID).nodup_iff]
    refine nodup_bulkIDs a.edges EdgeKey.captureID EdgeKey.id
      (fun k e hl => (h.edge_cell hc hl).1) ?_ (fun _ e => e.bulk)
      (fun e => canonKey e.fromID e.toID) fun k e hl => h.edge_id hl
    intro ⟨c, i⟩ ⟨c', i'⟩ hcap hid
    rw [EdgeKey.mk.injEq]
    exact ⟨hcap, hid⟩
  edgeCells := by
    intro e hmem
    obtain ⟨k, x, hl, rfl⟩ := Aggregator.mem_bulkEdges.mp (he.mem_iff.mp hmem)
    exact (congrArg (cell (edgeTotals evs)) (h.edge_id hl)).trans (h.edge_cell hc hl).2
  ends := by
    intro ev hev
    have hkey : (⟨ev.captureID, ev.edgeID⟩ : EdgeKey)
        ∈ (edgeHistory allCounters evs).map Prod.fst := by
      unfold edgeHistory
      rw [List.map_map]
      exact List.mem_map_of_mem hev
    obtain ⟨x, hl⟩ := (exists_iff_of_counters h.edges _).mpr hkey
    obtain ⟨ev', hev', hends⟩ := h.ends _ x hl
    have hsame := edge_unique (hc.clean ev hev) (hc.clean ev' hev') (congrArg Prod.fst hends).symm
    refine ⟨x.bulk, he.mem_iff.mpr (Aggregator.mem_bulkEdges.mpr ⟨_, x, hl, rfl⟩), ?_⟩
    rw [hsame, hends]
    rfl
  events := by
    intro e hmem
    obtain ⟨k, x, hl, rfl⟩ := Aggregator.mem_bulkEdges.mp (he.mem_iff.mp hmem)
    obtain ⟨ev, hev, hends⟩ := h.ends k x hl
    exact ⟨ev, hev, congrArg Prod.snd hends⟩

end Aggregates

/-! ## The two graphs -/

/-- The same nodes and the same edges, with the same counters. -/
structure SameGraph (m m' : Manager) : Prop where
  nodes : ∀ k, (m.nodes.lookup k).map (fun n => (n.packetCount, n.byteCount, n.isGroup))
    = (m'.nodes.lookup k).map (fun n => (n.packetCount, n.byteCount, n.isGroup))
  edges : ∀ k, (m.edges.lookup k).map (fun e => ((e.fromID, e.toID), e.split))
    = (m'.edges.lookup k).map (fun e => ((e.fromID, e.toID), e.split))

/-- The nodes of the same endpoints are the same. -/
theorem Filed.same_nodes (h : Filed host done m) (h' : Filed host done m') (k : String) :
    (m.nodes.lookup k).map Node.tally = (m'.nodes.lookup k).map Node.tally := by
  have hcell := (congrFun h.loads k).trans (congrFun h'.loads k).symm
  unfold Tally.counters at hcell
  cases hl : m.nodes.lookup k with
  | none =>
    rw [hl, Option.map_none, eq_comm, Option.map_eq_none_iff] at hcell
    rw [hcell, Option.map_none]
  | some n =>
    rw [hl, Option.map_some] at hcell
    obtain ⟨n', hl', hload⟩ := Option.map_eq_some_iff.mp hcell.symm
    have hgroup : n'.isGroup = n.isGroup := by
      rw [Bool.eq_iff_iff, h.groups k n hl, h'.groups k n' hl']
    rw [hl', Option.map_some, Option.map_some]
    unfold Node.tally
    rw [hload, hgroup]

/-- The ends of an edge are settled by its id. -/
theorem WellKeyed.same_ends {edges edges' : KeyedMap String Edge} (h : WellKeyed edges)
    (h' : WellKeyed edges') {k : String} {e e' : Edge} (hl : edges.lookup k = some e)
    (hl' : edges'.lookup k = some e') : (e.fromID, e.toID) = (e'.fromID, e'.toID) := by
  obtain ⟨hc, -, hf, ht⟩ := h k e hl
  obtain ⟨hc', -, hf', ht'⟩ := h' k e' hl'
  have hkey : canonKey e.fromID e.toID = canonKey e'.fromID e'.toID := by
    rw [canonKey, canonKey, hc, hc']
  rcases canonKey_inj hf ht hf' ht' hkey with ⟨hff, htt⟩ | ⟨hft, htf⟩
  · rw [hff, htt]
  · rw [← hft, ← htf, getCanonicalEdgeID_comm, hc] at hc'
    rw [← hft, ← htf]
    exact congrArg Prod.snd hc'

/-- Edges under canonical ids are the same when they have counted the same. -/
theorem EdgesFiled.same_iff {l' : List (String × Counters)} (h : EdgesFiled l m)
    (h' : EdgesFiled l' m') :
    (∀ k, (m.edges.lookup k).map (fun e => ((e.fromID, e.toID), e.split))
      = (m'.edges.lookup k).map (fun e => ((e.fromID, e.toID), e.split))) ↔ cell l = cell l' := by
  rw [← h.splits, ← h'.splits]
  constructor
  · intro hsame
    funext k
    have hk := congrArg (Option.map Prod.snd) (hsame k)
    rw [Option.map_map, Option.map_map] at hk
    exact hk
  · intro hsame k
    have hk := congrFun hsame k
    unfold Tally.counters at hk
    cases hl : m.edges.lookup k with
    | none =>
      rw [hl, Option.map_none, eq_comm, Option.map_eq_none_iff] at hk
      rw [hk, Option.map_none]
    | some e =>
      rw [hl, Option.map_some] at hk
      obtain ⟨e', hl', hsplit⟩ := Option.map_eq_some_iff.mp hk.symm
      rw [hl', Option.map_some, Option.map_some, hsplit,
        h.wellKeyed.same_ends h'.wellKeyed hl hl']

/-- Leaving out packets is noticed as soon as one is left out. -/
theorem edgeTotals_filter_iff (p : PacketEvent → Bool) (g : PacketEvent → PacketEvent)
    (evs : List PacketEvent) :
    cell (edgeTotals (evs.map g)) = cell (edgeTotals ((evs.filter p).map g))
      ↔ ∀ ev ∈ evs, p ev = true := by
  constructor
  · intro hsame ev hev
    by_contra hno
    have hperm := List.filter_append_perm p evs
    have hsplit : cell (edgeTotals (evs.map g)) = cell (edgeTotals ((evs.filter p).map g)
        ++ edgeTotals ((evs.filter fun ev => !p ev).map g)) := by
      unfold edgeTotals
      rw [← List.map_append, ← List.map_append]
      exact (cell_perm ((hperm.map _).map _)).symm
    rw [hsame] at hsplit
    have hout : ev ∈ evs.filter fun ev => !p ev := List.mem_filter.mpr ⟨hev, by simpa using hno⟩
    -- its weight would be missing
    refine cell_append_ne ?_ ?_ (congrFun hsplit (g ev).edgeID).symm
    · intro x hx
      obtain ⟨ev', -, rfl⟩ := List.mem_map.mp hx
      exact ev'.counters_ne_zero
    · unfold edgeTotals
      rw [List.map_map, List.map_map]
      exact List.mem_map.mpr ⟨ev, hout, rfl⟩
  · intro hall
    rw [List.filter_eq_self.mpr hall]

/-- The ends of a row are counted endpoints. -/
theorem Rows.resolves (h : Rows host evs nodes edges)
    (hfree : ∀ a ∈ (endpointTotals evs).map Prod.fst, SepFree (nodeOf host a)) {e : BulkEdge}
    (he : e ∈ edges) : e.Resolves host (endpointTotals evs) := by
  obtain ⟨ev, hev, hends⟩ := h.events e he
  have hmem : ∀ a, a = ev.src ∨ a = ev.dst → a ∈ (endpointTotals evs).map Prod.fst := by
    intro a ha
    refine List.mem_map.mpr ⟨(a, ev.load), List.mem_flatMap.mpr ⟨ev, hev, ?_⟩, rfl⟩
    rcases ha with rfl | rfl
    · exact List.mem_cons_self
    · exact List.mem_cons_of_mem _ (List.mem_singleton_self _)
  obtain ⟨hf, ht⟩ : e.fromID ∈ (endpointTotals evs).map Prod.fst
      ∧ e.toID ∈ (endpointTotals evs).map Prod.fst := by
    rcases ev.ends_cases hends with ⟨hf, ht⟩ | ⟨hf, ht⟩
    · exact ⟨hmem _ (Or.inl hf), hmem _ (Or.inr ht)⟩
    · exact ⟨hmem _ (Or.inr hf), hmem _ (Or.inl ht)⟩
  exact ⟨⟨hf, hfree _ hf⟩, ht, hfree _ ht⟩

/-- **The graph of a reload**: the nodes of all packets, and the edges of those that stay apart. -/
theorem Rows.bulkLoad [RuneCase] (h : Rows host evs nodes edges) (hclean : ∀ ev ∈ evs, ev.Clean)
    (hfree : ∀ a ∈ (endpointTotals evs).map Prod.fst, SepFree (nodeOf host a)) (reg : Registry)
    (clock : Nat → Int) :
    Filed host (endpointTotals evs) (newManager.bulkLoad reg nodes edges clock)
      ∧ EdgesFiled (edgeTotals ((evs.filter fun ev => ¬ ev.Collapses host).map (·.filed host)))
        (newManager.bulkLoad reg nodes edges clock) := by
  obtain ⟨hnodes, hedges⟩ := h.bulkNodes clock
  have hdirty : Filed host (nodes.map fun n => (n.id, (1, 0)))
      { newManager.bulkNodes nodes clock with dirty := true } :=
    hnodes.kept rfl rfl fun _ => rfl
  have hover := h.overwrite hdirty
  unfold Manager.bulkLoad
  dsimp only at hover ⊢
  have hempty : EdgesFiled [] { newManager.bulkNodes nodes clock with
      dirty := true
      nodes := (nodes.foldl { newManager.bulkNodes nodes clock with
        dirty := true }.overwriteCounters ((newManager.bulkNodes nodes clock).nodes, [])).1 } :=
    edgesFiled_init.kept hedges
  obtain ⟨hn, he⟩ := hover.bulkEdges hempty reg (fun i => clock (nodes.length + i))
    fun e he => h.resolves hfree he
  exact ⟨hn, he.congr (h.edges_cell hclean)⟩

/-- The packets of a capture as its events. -/
theorem captured_packets (captureID : Int) {packets : List PacketWithTime}
    (hclean : ∀ p ∈ packets, p.SepFree host) :
    Captured captureID host (packets.map (·.named captureID host)) := by
  refine ⟨?_, ?_, ?_⟩
  · intro ev hev
    obtain ⟨p, -, rfl⟩ := List.mem_map.mp hev
    rfl
  · intro ev hev
    obtain ⟨p, -, rfl⟩ := List.mem_map.mp hev
    exact ⟨rfl, rfl⟩
  · intro ev hev
    obtain ⟨p, hp, rfl⟩ := List.mem_map.mp hev
    exact ⟨(hclean p hp).1, (hclean p hp).2.1⟩

/--
**A reload agrees with the packet path exactly when no packet is between two
different endpoints of one node**, whatever the order of the rows and the clocks.
-/
theorem reload_iff [RuneCase] (reg : Registry) (bucketSecs captureID : Int)
    (host : String → String) (packets : List PacketWithTime)
    (hclean : ∀ p ∈ packets, p.SepFree host) (packetClock : Nat → IngestClock)
    (rowClock : Nat → Int) (nodes : List BulkNode) (edges : List BulkEdge)
    (hnodes : nodes.Perm
      (aggregateEvents reg bucketSecs (packets.map (·.named captureID host))).bulkNodes)
    (hedges : edges.Perm
      (aggregateEvents reg bucketSecs (packets.map (·.named captureID host))).bulkEdges) :
    SameGraph (replayGraph host packetClock packets)
        (newManager.bulkLoad reg nodes edges rowClock)
      ↔ ∀ p ∈ packets, p.info.srcIP ≠ p.info.dstIP →
          nodeOf host p.info.srcIP ≠ nodeOf host p.info.dstIP := by
  have hcap := captured_packets captureID hclean
  have hrows := (aggregateEvents_aggregated reg bucketSecs captureID hcap).rows hcap hnodes hedges
  have hfree : ∀ a ∈ (endpointTotals (packets.map (·.named captureID host))).map Prod.fst,
      SepFree (nodeOf host a) := by
    intro a ha
    obtain ⟨e, he, rfl⟩ := List.mem_map.mp ha
    obtain ⟨ev, hev, hmem⟩ := List.mem_flatMap.mp he
    obtain ⟨p, hp, rfl⟩ := List.mem_map.mp hev
    obtain ⟨hs, hd, hsh, hdh⟩ := hclean p hp
    rcases List.mem_cons.mp hmem with rfl | hmem
    · exact nodeOf_sepFree hs hsh
    · rw [List.mem_singleton.mp hmem]
      exact nodeOf_sepFree hd hdh
  obtain ⟨hpath, hpathEdges⟩ := replayGraph_filed captureID packetClock hclean
  obtain ⟨hload, hloadEdges⟩ := hrows.bulkLoad hcap.clean hfree reg rowClock
  have hsame := hpathEdges.same_iff hloadEdges
  rw [edgeTotals_filter_iff] at hsame
  constructor
  · intro hg p hp hne heq
    have hev := of_decide_eq_true (hsame.mp hg.edges _ (List.mem_map_of_mem hp))
    exact hev ⟨hne, heq⟩
  · intro happart
    refine ⟨fun k => ?_, hsame.mpr ?_⟩
    · have hk := congrArg (Option.map fun t : Load × Bool => (t.1.1, t.1.2, t.2))
        (hpath.same_nodes hload k)
      rw [Option.map_map, Option.map_map] at hk
      exact hk
    · intro ev hev
      obtain ⟨p, hp, rfl⟩ := List.mem_map.mp hev
      exact decide_eq_true fun hc => happart p hp hc.1 hc.2

/-- Two hosts, each under a name of its own, and one without. -/
def namedHosts : String → String
  | "10.0.0.5" => "printer"
  | "10.0.0.6" => "laptop"
  | _ => ""

/-- One host under two addresses. -/
def oneHost : String → String
  | "10.0.0.5" => "printer"
  | "10.0.0.6" => "printer"
  | _ => ""

/-- Two packets, one each way between two addresses, and one elsewhere. -/
def printerPackets : List PacketWithTime :=
  [⟨{ srcIP := "10.0.0.5", dstIP := "10.0.0.6", length := 60 }, 0⟩,
   ⟨{ srcIP := "10.0.0.6", dstIP := "10.0.0.5", length := 40 }, 1000000000⟩,
   ⟨{ srcIP := "10.0.0.6", dstIP := "8.8.8.8", length := 20 }, 2000000000⟩]

/-- A catalog of one protocol. -/
def tcpCatalog : Registry := Registry.ofList [protocolTCP]

/-- The two names keep the addresses apart. -/
theorem reload_iff_namedHosts :
    SameGraph (replayGraph namedHosts (fun _ => {}) printerPackets)
      (newManager.bulkLoad tcpCatalog
        (aggregateEvents tcpCatalog 10 (printerPackets.map (·.named 1 namedHosts))).bulkNodes
        (aggregateEvents tcpCatalog 10 (printerPackets.map (·.named 1 namedHosts))).bulkEdges
        fun _ => 0) :=
  (reload_iff tcpCatalog 10 1 namedHosts printerPackets (by decide) _ _ _ _ (List.Perm.refl _)
    (List.Perm.refl _)).mpr (by decide)

/-- Under one name, the packets between the two addresses are a self-loop that the reload drops. -/
theorem reload_dropsSelfLoop :
    ¬ ∀ (reg : Registry) (bucketSecs captureID : Int) (host : String → String)
      (packets : List PacketWithTime), (∀ p ∈ packets, p.SepFree host) →
      ∀ (packetClock : Nat → IngestClock) (rowClock : Nat → Int),
        SameGraph (replayGraph host packetClock packets)
          (newManager.bulkLoad reg
            (aggregateEvents reg bucketSecs (packets.map (·.named captureID host))).bulkNodes
            (aggregateEvents reg bucketSecs (packets.map (·.named captureID host))).bulkEdges
            rowClock) := by
  intro h
  have hedge := (h tcpCatalog 10 1 oneHost printerPackets (by decide) (fun _ => {})
    fun _ => 0).edges "printer<->printer"
  revert hedge
  decide

end Etherchimp
