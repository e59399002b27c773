import Etherchimp.Proof.Ledger

/-!
# No packet is lost or counted twice

`Totals` says that the counters of nodes and edges are the totals of the
histories, as the addresses resolve now.
-/

namespace Etherchimp

open Manager

/-- The packet is between `a` and `b`. -/
def joins (m : Manager) (a b : String) (pkt : PacketInfo) : Bool := along m a b pkt || along m b a pkt

/-- The counters of a node, zero when there is none. -/
def nodeLoad : Option Node → Nat × Nat
  | none => 0
  | some n => (n.packetCount, n.byteCount)

/-- The counters of an edge, zero when there is none. -/
def edgeLoad : Option Edge → Nat × Nat
  | none => 0
  | some e => (e.packetCount, e.byteCount)

/-- The counters are the totals of the history. -/
structure Totals (evs : List Endpoint) (pkts : List PacketInfo) (m : Manager) : Prop
    extends Bound evs pkts m where
  nodes : ∀ k, nodeLoad (m.nodes.lookup k) = Tally.total Endpoint.weight (resolvesTo m k) evs
  edges : ∀ a b, SepFree a → SepFree b → a ≠ b →
    edgeLoad (between m.edges a b) = Tally.total PacketInfo.weight (joins m a b) pkts
  live : ∀ k e, m.edges.lookup k = some e → 0 < e.packetCount

variable {evs : List Endpoint} {pkts : List PacketInfo} {m m' : Manager}

theorem nodeLoad_kept (hk : NodesKept m m') (k : String) :
    nodeLoad (m'.nodes.lookup k) = nodeLoad (m.nodes.lookup k) := by
  have hr := hk.nodes k
  generalize m.nodes.lookup k = x, m'.nodes.lookup k = y at hr
  cases hr with
  | none => rfl
  | some hr => rw [nodeLoad, nodeLoad, hr.packetCount, hr.byteCount]

theorem joins_congr (h : m'.ipToNodeID = m.ipToNodeID) : joins m' = joins m := by
  unfold joins; rw [along_congr h]

theorem Totals.kept (hk : NodesKept m m') (he : m'.edges = m.edges) (h : Totals evs pkts m) :
    Totals evs pkts m' where
  toBound := h.toBound.kept hk he
  nodes := by
    intro k
    rw [nodeLoad_kept hk, resolvesTo_congr hk.ipTo]
    exact h.nodes k
  edges := by
    rw [he, joins_congr hk.ipTo]
    exact h.edges
  live := by rw [he]; exact h.live

/-! ## A merge relabels -/

section Merge

variable [RuneCase] {newID oldID hostname : String}

/-- The total at a node after a merge. -/
theorem resolvesTo_merge (hne : oldID ≠ newID) (k : String) :
    Tally.total Endpoint.weight (resolvesTo (m.mergeNodeInto newID oldID hostname) k) evs
      = if k = oldID then 0
        else if k = newID then
          Tally.total Endpoint.weight (resolvesTo m newID) evs
            + Tally.total Endpoint.weight (resolvesTo m oldID) evs
        else Tally.total Endpoint.weight (resolvesTo m k) evs := by
  have hiff := merge_resolves_iff m hostname hne
  unfold resolvesTo
  split
  · rename_i hk
    refine Tally.total_eq_zero fun ev _ => ?_
    simp [hiff, hk]
  · rename_i hko
    split
    · rename_i hk
      rw [← Tally.total_or]
      · refine Tally.total_congr fun ev _ => ?_
        simp [hiff, hk, hne.symm]
      · intro ev _ hev
        have hev := of_decide_eq_true hev
        simp [hev, hne.symm]
    · rename_i hkn
      refine Tally.total_congr fun ev _ => ?_
      simp [hiff, hko, hkn]

omit [RuneCase] in
/-- Between two nodes there are the packets of either direction. -/
theorem joins_total {a b : String} (hab : a ≠ b) :
    Tally.total PacketInfo.weight (joins m a b) pkts
      = Tally.total PacketInfo.weight (along m a b) pkts
        + Tally.total PacketInfo.weight (along m b a) pkts := by
  unfold joins
  rw [← Tally.total_or]
  intro pkt _ hp
  unfold along at hp ⊢
  have hp := of_decide_eq_true hp
  simp [hp.1, hab]

theorem nodeLoad_mergedNode (x y : Option Node) :
    nodeLoad (mergedNode newID hostname x y) = nodeLoad x + nodeLoad y := by
  cases x <;> cases y <;> simp [mergedNode, nodeLoad, absorbNode]

omit [RuneCase] in
theorem edgeLoad_joinEdges (x y : Option Edge) :
    edgeLoad (joinEdges newID oldID x y) = edgeLoad x + edgeLoad y := by
  cases x <;> cases y <;> simp [joinEdges, edgeLoad, absorbEdge, rekeyed]

theorem Totals.merge (hne : oldID ≠ newID) (hnew : CleanID newID)
    (hold : ∃ n, m.nodes.lookup oldID = some n) (h : Totals evs pkts m) :
    Totals evs pkts (m.mergeNodeInto newID oldID hostname) where
  toBound := h.toBound.merge hne hnew hold
  nodes := by
    intro k
    rw [resolvesTo_merge hne, mergeNodeInto_nodes hne]
    split
    · rfl
    · split
      · rw [nodeLoad_mergedNode, h.nodes, h.nodes]
      · exact h.nodes k
  edges := by
    intro a b ha hb hab
    obtain ⟨o, ho⟩ := hold
    have hos := (h.clean oldID o ho).1.2
    have hbet := mergeEdges_between h.wellKeyed hnew.2 hos hne m.edgesByNode ha hb
    show edgeLoad (between (mergeEdges newID oldID m.edges m.edgesByNode).edges a b) = _
    rw [hbet, joins_total hab, along_merge hne hab, along_merge hne hab.symm, if_neg hab]
    by_cases hio : a = oldID ∨ b = oldID
    · rw [if_pos hio, if_pos hio, if_pos hio.symm]; rfl
    · rw [if_neg hio, if_neg hio, if_neg (mt Or.symm hio)]
      obtain ⟨hao, hbo⟩ := not_or.mp hio
      by_cases han : a = newID
      · have hbn : b ≠ newID := fun h => hab (han.trans h.symm)
        rw [if_pos han, if_pos han, if_neg hbn, if_pos han, edgeLoad_joinEdges,
          h.edges a b ha hb hab, h.edges oldID b hos hb (Ne.symm hbo), joins_total hab,
          joins_total (Ne.symm hbo), add_add_add_comm]
      · rw [if_neg han, if_neg han]
        by_cases hbn : b = newID
        · rw [if_pos hbn, if_pos hbn, if_pos hbn, edgeLoad_joinEdges, h.edges a b ha hb hab,
            h.edges oldID a hos ha (Ne.symm hao), joins_total hab, joins_total (Ne.symm hao),
            add_comm (Tally.total PacketInfo.weight (along m oldID a) pkts), add_add_add_comm]
        · rw [if_neg hbn, if_neg hbn, if_neg hbn, if_neg han, h.edges a b ha hb hab,
            joins_total hab]
  live := by
    intro k e hk
    rcases mergeEdges_some (h.wellKeyed.disjoint hnew.2 hne) hk with ⟨hE, -⟩
      | ⟨e₀, k', e', hE, -, -, rfl⟩ | ⟨k', e', hE, -, rfl⟩
    · exact h.live k e hE
    · exact Nat.add_pos_left (h.live k e₀ hE) _
    · exact h.live k' e' hE

end Merge

section Count

variable [RuneCase] {ip hostname nodeID : String} {bytes : Nat} {now : Int}

theorem Totals.countEndpoint (hip : ∀ k, m.ipToNodeID.lookup ip = some k → k = nodeID)
    (hA : CleanID nodeID) (hAip : CleanID ip) (h : Totals evs pkts m) :
    Totals (evs ++ [⟨ip, bytes⟩]) pkts (m.countEndpoint nodeID ip hostname bytes now) := by
  obtain ⟨node, hnodes, hnode⟩ := countEndpoint_nodes m nodeID ip hostname bytes now
  refine ⟨h.toBound.countEndpoint hip hA hAip, ?_, ?_, ?_⟩
  · intro k
    have hold : Tally.total Endpoint.weight
        (resolvesTo (m.countEndpoint nodeID ip hostname bytes now) k) evs
          = nodeLoad (m.nodes.lookup k) := by
      rw [h.nodes]
      refine Tally.total_congr fun ev hev => ?_
      unfold resolvesTo
      rw [countEndpoint_lookup hip (h.seen ev hev)]
    rw [Tally.total_concat, hold, hnodes, KeyedMap.lookup_insert_eq]
    unfold resolvesTo
    rw [countEndpoint_ipToNodeID, AList.lookup_insert]
    by_cases hk : k = nodeID
    · subst hk
      rw [if_pos rfl, if_pos (by simp)]
      cases hn : m.nodes.lookup k with
      | none =>
        rw [hn] at hnode
        simp [nodeLoad, Endpoint.weight, hnode.2.2]
      | some n₀ =>
        rw [hn] at hnode
        simp [nodeLoad, Endpoint.weight, hnode.2.2]
    · rw [if_neg hk, if_neg (by simp [Ne.symm hk]), add_zero]
  · intro a b ha hb hab
    rw [countEndpoint_edges, h.edges a b ha hb hab]
    refine Tally.total_congr fun pkt hpkt => ?_
    obtain ⟨hsrc, hdst⟩ := h.ends pkt hpkt
    unfold joins along
    rw [countEndpoint_lookup hip hsrc, countEndpoint_lookup hip hdst]
  · rw [countEndpoint_edges]; exact h.live

end Count

/-! ## Counting an edge -/

theorem countPacket_load (e : Edge) (fwd : Bool) (protocol : Protocol) (bytes : Nat) (now : Int) :
    edgeLoad (some (countPacket e fwd protocol bytes now)) = edgeLoad (some e) + (1, bytes) := by
  unfold countPacket edgeLoad
  dsimp only
  split <;> split <;> rfl

theorem Totals.addOrUpdateEdge {pkt : PacketInfo} {a b : String}
    (hsrc : m.ipToNodeID.lookup pkt.srcIP = some a)
    (hdst : m.ipToNodeID.lookup pkt.dstIP = some b) (h : Totals evs pkts m) :
    Totals evs (pkts ++ [pkt])
      (m.addOrUpdateEdgeLocked pkt.srcIP pkt.dstIP protocol pkt.length now) := by
  have hk := addOrUpdateEdgeLocked_nodesKept m pkt.srcIP pkt.dstIP protocol pkt.length now
  obtain ⟨na, hna⟩ := h.resolves _ a hsrc
  obtain ⟨nb, hnb⟩ := h.resolves _ b hdst
  have ha := (h.clean a na hna).1.2
  have hb := (h.clean b nb hnb).1.2
  obtain ⟨f, t, hc⟩ : ∃ f t, getCanonicalEdgeID a b = (canonKey a b, f, t) := ⟨_, _, rfl⟩
  have hlookup := addOrUpdateEdge_lookup m pkt.srcIP pkt.dstIP protocol pkt.length now
    (by rw [resolve_eq hsrc, resolve_eq hdst, hc])
  refine ⟨h.toBound.addOrUpdateEdge hsrc hdst, ?_, ?_, ?_⟩
  · intro k
    rw [nodeLoad_kept hk, resolvesTo_congr hk.ipTo]
    exact h.nodes k
  · intro x y hx hy hxy
    have hjoins : joins m x y pkt = decide (canonKey x y = canonKey a b) := by
      unfold joins along
      rw [hsrc, hdst]
      simp [canonKey_eq_iff ha hb hx hy]
    rw [joins_congr hk.ipTo, Tally.total_concat, ← h.edges x y hx hy hxy, hjoins]
    unfold between
    rw [hlookup]
    by_cases hkey : canonKey x y = canonKey a b
    · rw [if_pos hkey, if_pos (decide_eq_true hkey), hkey]
      cases m.edges.lookup (canonKey a b) with
      | none => simp [edgeLoad, newEdge, PacketInfo.weight]
      | some e => exact countPacket_load ..
    · rw [if_neg hkey, if_neg (by simp [hkey]), add_zero]
  · intro k e hl
    rw [hlookup] at hl
    split at hl
    · rw [Option.some.injEq] at hl
      cases he : m.edges.lookup (canonKey a b) with
      | none => rw [he] at hl; rw [← hl]; exact Nat.one_pos
      | some e₀ =>
        rw [he] at hl
        dsimp only at hl
        have hload := countPacket_load e₀ (m.resolve pkt.srcIP = f) protocol pkt.length now
        have := congrArg Prod.fst hload
        simp only [edgeLoad, Prod.fst_add] at this
        rw [← hl]
        omega
    · exact h.live k e hl

/-! ## Every run of `Ingest` -/

theorem totals_init : Totals [] [] newManager where
  wellKeyed := by intro k e h; simp [newManager] at h
  clean := by intro k n h; simp [newManager] at h
  resolves := by intro ip k h; simp [newManager] at h
  seen := by intro ev h; cases h
  ends := by intro pkt h; cases h
  nodes := by intro k; simp [newManager, nodeLoad]
  edges := by intro a b _ _ _; simp [newManager, between, edgeLoad]
  live := by intro k e h; simp [newManager] at h

theorem totals_ledger [RuneCase] : Ledger (fun _ _ _ => True) Totals where
  bound h := h.toBound
  kept hk he h := h.kept hk he
  merge hne hA hold _ h := h.merge hne hA hold
  endpoint hip hA hAip h := h.countEndpoint hip hA hAip
  packet hsrc hdst h := h.addOrUpdateEdge hsrc hdst

/-- The edge is between `a` and `b`. -/
def Edge.Joins (e : Edge) (a b : String) : Prop :=
  (e.fromID = a ∧ e.toID = b) ∨ (e.fromID = b ∧ e.toID = a)

instance (e : Edge) (a b : String) : Decidable (e.Joins a b) := inferInstanceAs (Decidable (_ ∨ _))

/--
What the counters of a graph built by `Ingest` should be: a node's are the number
and the bytes of the endpoints that resolve to it, and between two nodes there is
one edge exactly when a packet is between them, with the counters of all of those.
-/
def TotalsExact [RuneCase] (calls : List IngestCall) : Prop :=
  let m := ingestAll calls
  let evs := endpointsOf calls
  let pkts := packetsOf calls
  (∀ k n, m.nodes.lookup k = some n →
      n.packetCount = (evs.filter (resolvesTo m k)).length
        ∧ n.byteCount = ((evs.filter (resolvesTo m k)).map Endpoint.bytes).sum)
    ∧ ∀ a b na nb, m.nodes.lookup a = some na → m.nodes.lookup b = some nb → a ≠ b →
      ((∃ key e, m.edges.lookup key = some e ∧ e.Joins a b) ↔ ∃ pkt ∈ pkts, joins m a b pkt)
        ∧ (∀ key key' e e', m.edges.lookup key = some e → m.edges.lookup key' = some e' →
            e.Joins a b → e'.Joins a b → key = key' ∧ e = e')
        ∧ ∀ key e, m.edges.lookup key = some e → e.Joins a b →
            e.packetCount = (pkts.filter (joins m a b)).length
              ∧ e.byteCount = ((pkts.filter (joins m a b)).map PacketInfo.length).sum

/-- A pair of totals, read off as a number and a sum. -/
theorem load_eq {α : Type} {w : α → Nat × Nat} {f : α → Nat} {x : Nat × Nat} {p : α → Bool}
    {l : List α} (hw : ∀ a, w a = (1, f a)) (h : x = Tally.total w p l) :
    x.1 = (l.filter p).length ∧ x.2 = ((l.filter p).map f).sum := by
  have hpair : w = fun a => ((1 : Nat), f a) := funext hw
  rw [hpair, Tally.total_pair, Tally.total_one] at h
  rw [h]
  exact ⟨rfl, rfl⟩

/-- The edge between two nodes is the one found under their id. -/
theorem WellKeyed.joins_iff {edges : KeyedMap String Edge} (h : WellKeyed edges) {a b key : String}
    (ha : SepFree a) (hb : SepFree b) (e : Edge) :
    (edges.lookup key = some e ∧ e.Joins a b) ↔ (key = canonKey a b ∧ between edges a b = some e) := by
  constructor
  · intro ⟨he, hj⟩
    obtain ⟨hkey, hbt⟩ := h.between_ends he
    rcases hj with ⟨hf, ht⟩ | ⟨hf, ht⟩
    · rw [hf, ht] at hkey hbt
      exact ⟨hkey, hbt⟩
    · rw [hf, ht] at hkey hbt
      exact ⟨by rw [hkey, canonKey_comm], by rw [between_comm]; exact hbt⟩
  · intro ⟨hkey, hbt⟩
    exact ⟨by rw [hkey]; exact hbt, h.endpoints ha hb hbt⟩

/-- **No packet is lost or counted twice**, whatever the calls rename and merge. -/
theorem totalsExact [RuneCase] (calls : List IngestCall) (h : ∀ c ∈ calls, c.Clean) :
    TotalsExact calls := by
  have ht := totals_ledger.run totals_init h (merges_true calls newManager)
  unfold TotalsExact
  dsimp only
  generalize ingestAll calls = m at ht
  generalize endpointsOf calls = evs, packetsOf calls = pkts at ht
  refine ⟨?_, ?_⟩
  · intro k n hn
    have hload := ht.nodes k
    rw [hn] at hload
    exact load_eq (fun _ => rfl) hload
  · intro a b na nb hna hnb hab
    have ha := (ht.clean a na hna).1.2
    have hb := (ht.clean b nb hnb).1.2
    have hload := ht.edges a b ha hb hab
    have hcount : ∀ e, between m.edges a b = some e →
        e.packetCount = (pkts.filter (joins m a b)).length
          ∧ e.byteCount = ((pkts.filter (joins m a b)).map PacketInfo.length).sum := by
      intro e he
      rw [he] at hload
      exact load_eq (fun _ => rfl) hload
    refine ⟨?_, ?_, ?_⟩
    · constructor
      · intro ⟨key, e, hl, hj⟩
        -- the edge has counted a packet, so there is one
        obtain ⟨-, hbt⟩ := (ht.wellKeyed.joins_iff ha hb e).mp ⟨hl, hj⟩
        have hpos := ht.live key e hl
        rw [(hcount e hbt).1, List.length_pos_iff_exists_mem] at hpos
        obtain ⟨pkt, hpkt⟩ := hpos
        exact ⟨pkt, List.mem_filter.mp hpkt⟩
      · intro ⟨pkt, hpkt, hj⟩
        cases hbt : between m.edges a b with
        | some e => exact ⟨_, e, (ht.wellKeyed.joins_iff ha hb e).mpr ⟨rfl, hbt⟩⟩
        | none =>
          rw [hbt] at hload
          obtain ⟨h1, -⟩ := load_eq (fun _ => rfl) hload
          have hmem : pkt ∈ pkts.filter (joins m a b) := List.mem_filter.mpr ⟨hpkt, hj⟩
          rw [List.eq_nil_of_length_eq_zero h1.symm] at hmem
          cases hmem
    · intro key key' e e' hl hl' hj hj'
      obtain ⟨hk, hbt⟩ := (ht.wellKeyed.joins_iff ha hb e).mp ⟨hl, hj⟩
      obtain ⟨hk', hbt'⟩ := (ht.wellKeyed.joins_iff ha hb e').mp ⟨hl', hj'⟩
      rw [hbt, Option.some.injEq] at hbt'
      exact ⟨hk.trans hk'.symm, hbt'⟩
    · intro key e hl hj
      exact hcount e ((ht.wellKeyed.joins_iff ha hb e).mp ⟨hl, hj⟩).2

/-- A host known by address, then by name, then by MAC. -/
def renamedHostRun : List IngestCall :=
  [{ pkt := { srcIP := "10.0.0.5", dstIP := "8.8.8.8", length := 60 } },
   { pkt := { srcIP := "8.8.8.8", dstIP := "10.0.0.5", length := 40 }, dstHostname := "web.lan" },
   { pkt := { srcIP := "10.0.0.5", dstIP := "8.8.8.8", srcMAC := "aa:bb:cc:00:11:22", length := 20 },
     srcHostname := "web.lan" }]

theorem totalsExact_renamedHost :
    (∀ c ∈ renamedHostRun, c.Clean) ∧ TotalsExact renamedHostRun :=
  ⟨by decide, totalsExact renamedHostRun (by decide)⟩

/-- The empty address is counted on a node of its own, then moves on without it. -/
def emptyAddressRun : List IngestCall :=
  [{ pkt := { srcIP := "", dstIP := "10.0.0.1", length := 60 } },
   { pkt := { srcIP := "", dstIP := "10.0.0.1", length := 60 }, srcHostname := "web.lan" }]

/-- Two pairs of nodes, named by MACs with the separator inside, share one edge id. -/
def ambiguousMACRun : List IngestCall :=
  [{ pkt := { srcIP := "10.0.0.1", dstIP := "0a", srcMAC := "00<->02<->04<->06<->08", length := 60 } },
   { pkt := { srcIP := "00", dstIP := "10.0.0.2", dstMAC := "02<->04<->06<->08<->0a", length := 60 } }]

/-- Names and addresses without the separator are not enough. -/
theorem totalsExact_sentinel_and_separator :
    ((∀ c ∈ emptyAddressRun, SepFree c.pkt.srcIP ∧ SepFree c.pkt.dstIP ∧ SepFree c.srcHostname
          ∧ SepFree c.dstHostname) ∧ ¬ TotalsExact emptyAddressRun)
      ∧ (∀ c ∈ ambiguousMACRun, SepFree c.pkt.srcIP ∧ SepFree c.pkt.dstIP ∧ SepFree c.srcHostname
          ∧ SepFree c.dstHostname) ∧ ¬ TotalsExact ambiguousMACRun := by
  refine ⟨⟨by decide, fun h => ?_⟩, by decide, fun h => ?_⟩
  · -- the node of the sentinel keeps a packet that resolves elsewhere
    have hcount : ((ingestAll emptyAddressRun).nodes.lookup "").map Node.packetCount = some 1 := by
      decide
    obtain ⟨n, hn, hone⟩ := Option.map_eq_some_iff.mp hcount
    have := (h.1 "" n hn).1
    rw [hone] at this
    revert this
    decide
  · -- the edge has counted both packets, and only one of them is between its ends
    have hfrom : ((ingestAll ambiguousMACRun).nodes.lookup "00<->02<->04<->06<->08").isSome := by
      decide
    have hto : ((ingestAll ambiguousMACRun).nodes.lookup "0a").isSome := by decide
    have hedge : ((ingestAll ambiguousMACRun).edges.lookup "00<->02<->04<->06<->08<->0a").map
        (fun e => (e.fromID, e.toID, e.packetCount))
          = some ("00<->02<->04<->06<->08", "0a", 2) := by
      decide
    obtain ⟨na, hna⟩ := Option.isSome_iff_exists.mp hfrom
    obtain ⟨nb, hnb⟩ := Option.isSome_iff_exists.mp hto
    obtain ⟨e, he, hends⟩ := Option.map_eq_some_iff.mp hedge
    rw [Prod.mk.injEq, Prod.mk.injEq] at hends
    obtain ⟨hf, ht, htwo⟩ := hends
    have := ((h.2 _ _ na nb hna hnb (by decide)).2.2 _ e he (Or.inl ⟨hf, ht⟩)).1
    rw [htwo] at this
    revert this
    decide

end Etherchimp
