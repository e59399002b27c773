import Etherchimp.Proof.Totals

/-!
# Which way the packets went

An edge counts forward what goes from its `fromID` to its `toID`. `Directed` says
those counters are the totals of the packets that go that way as the addresses
resolve now.

A merge re-keys an edge to canonical form and may turn it around, and it adds the
counters up as they stand: it never swaps them, though `bulkEdge` does when the
same thing happens to a stored edge. So a merge keeps the directions exactly when
every edge it re-keys stays the way round it was, or has counted the same both
ways. `KeepsDirection` is that condition.
-/

namespace Etherchimp

open Manager

/-- The edge has counted the same both ways. -/
def Edge.Balanced (e : Edge) : Prop :=
  e.forwardPackets = e.reversePackets ∧ e.forwardBytes = e.reverseBytes

instance (e : Edge) : Decidable e.Balanced := inferInstanceAs (Decidable (_ ∧ _))

/-- The end of an edge that is not the node. -/
def Edge.far (e : Edge) (id : String) : String := if e.fromID = id then e.toID else e.fromID

/-- Every edge the merge re-keys keeps its way round, or has counted the same both ways. -/
def KeepsDirection (m : Manager) (newID oldID : String) : Prop :=
  ∀ p ∈ m.edges.entries, Rekeys newID oldID p.2 →
    (oldID < p.2.far oldID ↔ newID < p.2.far oldID) ∨ p.2.Balanced

instance (m : Manager) (newID oldID : String) : Decidable (KeepsDirection m newID oldID) :=
  inferInstanceAs (Decidable (∀ p ∈ m.edges.entries, _))

/-- What an edge between `a` and `b` counts from `a` to `b`. -/
def flowLoad (a b : String) : Option Edge → Nat × Nat
  | none => 0
  | some e =>
      if a < b then (e.forwardPackets, e.forwardBytes) else (e.reversePackets, e.reverseBytes)

/-- The directional counters are the totals of the history. -/
structure Directed (evs : List Endpoint) (pkts : List PacketInfo) (m : Manager) : Prop
    extends Bound evs pkts m where
  flows : ∀ a b, SepFree a → SepFree b → a ≠ b →
    flowLoad a b (between m.edges a b) = Tally.total PacketInfo.weight (along m a b) pkts

variable {evs : List Endpoint} {pkts : List PacketInfo} {m m' : Manager}

theorem Directed.kept (hk : NodesKept m m') (he : m'.edges = m.edges) (h : Directed evs pkts m) :
    Directed evs pkts m' where
  toBound := h.toBound.kept hk he
  flows := by
    rw [he, along_congr hk.ipTo]
    exact h.flows

/-! ## Merging -/

section Merge

variable {newID oldID : String}

/-- Joining adds the directional counters up, if the old edge is the way round it was. -/
theorem flowLoad_joinEdges {a b a' b' : String} (x : Option Edge) {y : Option Edge}
    (hy : ∀ e, y = some e → (a' < b' ↔ a < b) ∨ e.Balanced) :
    flowLoad a b (joinEdges newID oldID x y) = flowLoad a b x + flowLoad a' b' y := by
  cases y with
  | none => cases x <;> simp [joinEdges, flowLoad]
  | some e =>
    have hflow : flowLoad a b (some e) = flowLoad a' b' (some e) := by
      rcases hy e rfl with hord | ⟨hp, hb⟩
      · simp only [flowLoad, hord]
      · simp only [flowLoad, hp, hb, ite_self]
    rw [← hflow]
    cases x with
    | none => simp [joinEdges, flowLoad, rekeyed]
    | some e₀ =>
      simp only [joinEdges, flowLoad, absorbEdge]
      split <;> rfl

/-- What the condition says about the edge from the old node to a third one. -/
theorem KeepsDirection.between (h : KeepsDirection m newID oldID) (hk : WellKeyed m.edges)
    {x : String} (hold : SepFree oldID) (hx : SepFree x) (hxo : x ≠ oldID) (hxn : x ≠ newID)
    {e : Edge} (he : between m.edges oldID x = some e) :
    (oldID < x ↔ newID < x) ∨ e.Balanced := by
  have hends := hk.endpoints hold hx he
  have hfar : e.far oldID = x := by
    unfold Edge.far
    rcases hends with ⟨hf, ht⟩ | ⟨hf, ht⟩
    · rw [if_pos hf, ht]
    · rw [hf, if_neg hxo]
  have := h ⟨_, e⟩ ((KeyedMap.mem_entries_iff m.edges _ e).mpr he) (rekeys_of_ends hxo hxn hends)
  rwa [hfar] at this

/-- Reading an order from the other side. -/
private theorem lt_iff_lt_of_flip {o n x : String} (hxo : x ≠ o) (hxn : x ≠ n)
    (h : o < x ↔ n < x) : x < o ↔ x < n := by
  have hflip : ∀ {a : String}, x ≠ a → (x < a ↔ ¬ a < x) := by
    intro a ha
    constructor
    · exact String.lt_asymm
    · intro hn
      rcases Std.lt_trichotomy x a with h | h | h
      · exact h
      · exact absurd h ha
      · exact absurd h hn
  rw [hflip hxo, hflip hxn, h]

variable [RuneCase] {hostname : String}

theorem Directed.merge (hne : oldID ≠ newID) (hnew : CleanID newID)
    (hold : ∃ n, m.nodes.lookup oldID = some n) (hP : KeepsDirection m newID oldID)
    (h : Directed evs pkts m) : Directed evs pkts (m.mergeNodeInto newID oldID hostname) where
  toBound := h.toBound.merge hne hnew hold
  flows := by
    intro a b ha hb hab
    obtain ⟨o, ho⟩ := hold
    have hos := (h.clean oldID o ho).1.2
    have hbet := mergeEdges_between h.wellKeyed hnew.2 hos hne m.edgesByNode ha hb
    show flowLoad a b (between (mergeEdges newID oldID m.edges m.edgesByNode).edges a b) = _
    rw [hbet, along_merge hne hab, if_neg hab]
    by_cases hio : a = oldID ∨ b = oldID
    · rw [if_pos hio, if_pos hio]; rfl
    · rw [if_neg hio, if_neg hio]
      obtain ⟨hao, hbo⟩ := not_or.mp hio
      by_cases han : a = newID
      · have hbn : b ≠ newID := fun h => hab (han.trans h.symm)
        rw [if_pos han, if_pos han, ← h.flows a b ha hb hab, ← h.flows oldID b hos hb (Ne.symm hbo)]
        refine flowLoad_joinEdges _ fun e he => ?_
        rw [han]
        exact hP.between h.wellKeyed hos hb hbo hbn he
      · rw [if_neg han, if_neg han]
        by_cases hbn : b = newID
        · rw [if_pos hbn, if_pos hbn, ← h.flows a b ha hb hab, ← h.flows a oldID ha hos hao,
            between_comm m.edges a oldID]
          refine flowLoad_joinEdges _ fun e he => ?_
          rw [hbn]
          exact (hP.between h.wellKeyed hos ha hao han he).imp_left (lt_iff_lt_of_flip hao han)
        · rw [if_neg hbn, if_neg hbn]
          exact h.flows a b ha hb hab

end Merge

/-! ## Counting -/

theorem Directed.countEndpoint [RuneCase] {ip hostname nodeID : String} {bytes : Nat} {now : Int}
    (hip : ∀ k, m.ipToNodeID.lookup ip = some k → k = nodeID) (hA : CleanID nodeID)
    (hAip : CleanID ip) (h : Directed evs pkts m) :
    Directed (evs ++ [⟨ip, bytes⟩]) pkts (m.countEndpoint nodeID ip hostname bytes now) where
  toBound := h.toBound.countEndpoint hip hA hAip
  flows := by
    intro a b ha hb hab
    rw [countEndpoint_edges, h.flows a b ha hb hab]
    refine Tally.total_congr fun pkt hpkt => ?_
    obtain ⟨hsrc, hdst⟩ := h.ends pkt hpkt
    unfold along
    rw [countEndpoint_lookup hip hsrc, countEndpoint_lookup hip hdst]

/-- A counted packet goes to the counter of its own direction. -/
theorem countPacket_flow (e : Edge) (fwd : Bool) (protocol : Protocol) (bytes : Nat) (now : Int)
    (x y : String) :
    flowLoad x y (some (countPacket e fwd protocol bytes now))
      = flowLoad x y (some e) + if (x < y) ↔ fwd = true then (1, bytes) else 0 := by
  unfold countPacket flowLoad
  dsimp only
  cases fwd <;> by_cases hxy : x < y <;> simp only [hxy, if_true, if_false] <;> split <;> simp

theorem newEdge_flow (key f t : String) (fwd : Bool) (protocol : Protocol) (bytes : Nat)
    (now : Int) (x y : String) :
    flowLoad x y (some (newEdge key f t fwd protocol bytes now))
      = if (x < y) ↔ fwd = true then (1, bytes) else 0 := by
  unfold newEdge flowLoad
  cases fwd <;> by_cases hxy : x < y <;> simp [hxy]

/-- A packet is forward on its edge when its source comes first. -/
theorem isForward_iff {a b f t : String} (hab : a ≠ b)
    (hc : getCanonicalEdgeID a b = (canonKey a b, f, t)) : a = f ↔ a < b := by
  unfold getCanonicalEdgeID at hc
  split at hc
  · rename_i hlt
    rw [Prod.mk.injEq, Prod.mk.injEq] at hc
    exact ⟨fun _ => hlt, fun _ => hc.2.1⟩
  · rename_i hlt
    rw [Prod.mk.injEq, Prod.mk.injEq] at hc
    exact ⟨fun h => absurd (h.trans hc.2.1.symm) hab, fun h => absurd h hlt⟩

theorem Directed.addOrUpdateEdge {protocol : Protocol} {now : Int} {pkt : PacketInfo}
    {a b : String} (hsrc : m.ipToNodeID.lookup pkt.srcIP = some a)
    (hdst : m.ipToNodeID.lookup pkt.dstIP = some b) (h : Directed evs pkts m) :
    Directed evs (pkts ++ [pkt])
      (m.addOrUpdateEdgeLocked pkt.srcIP pkt.dstIP protocol pkt.length now) where
  toBound := h.toBound.addOrUpdateEdge hsrc hdst
  flows := by
    intro x y hx hy hxy
    have hk := addOrUpdateEdgeLocked_nodesKept m pkt.srcIP pkt.dstIP protocol pkt.length now
    obtain ⟨na, hna⟩ := h.resolves _ a hsrc
    obtain ⟨nb, hnb⟩ := h.resolves _ b hdst
    have ha := (h.clean a na hna).1.2
    have hb := (h.clean b nb hnb).1.2
    obtain ⟨f, t, hc⟩ : ∃ f t, getCanonicalEdgeID a b = (canonKey a b, f, t) := ⟨_, _, rfl⟩
    have halong : along m x y pkt = decide (a = x ∧ b = y) := by
      unfold along
      rw [hsrc, hdst]
      simp
    rw [along_congr hk.ipTo, Tally.total_concat, ← h.flows x y hx hy hxy, halong]
    unfold between
    rw [addOrUpdateEdge_lookup m pkt.srcIP pkt.dstIP protocol pkt.length now
      (by rw [resolve_eq hsrc, resolve_eq hdst, hc]), resolve_eq hsrc]
    by_cases hkey : canonKey x y = canonKey a b
    · -- the packet's own edge, seen the way it went or the other way
      have hfwd : ((x < y) ↔ decide (a = f) = true) ↔ (a = x ∧ b = y) := by
        rcases (canonKey_eq_iff ha hb hx hy).mp hkey with ⟨rfl, rfl⟩ | ⟨rfl, rfl⟩
        · simp [isForward_iff hxy hc]
        · rw [decide_eq_true_iff, isForward_iff hxy.symm hc]
          constructor
          · intro h
            rcases Std.lt_trichotomy a b with hlt | heq | hlt
            · exact absurd hlt (String.lt_asymm (h.mpr hlt))
            · exact absurd heq.symm hxy
            · exact absurd hlt (String.lt_asymm (h.mp hlt))
          · intro h
            exact absurd h.1.symm hxy
      rw [if_pos hkey, hkey]
      cases m.edges.lookup (canonKey a b) with
      | none =>
        dsimp only
        rw [newEdge_flow, if_congr hfwd rfl rfl]
        simp only [decide_eq_true_iff, flowLoad, zero_add, PacketInfo.weight]
      | some e =>
        dsimp only
        rw [countPacket_flow, if_congr hfwd rfl rfl]
        simp only [decide_eq_true_iff, PacketInfo.weight]
    · have hno : ¬ (a = x ∧ b = y) := fun h =>
        hkey ((canonKey_eq_iff ha hb hx hy).mpr (Or.inl h))
      rw [if_neg hkey, if_neg (by simpa using hno), add_zero]

/-! ## Every run of `Ingest` -/

theorem directed_init : Directed [] [] newManager where
  toBound := totals_init.toBound
  flows := by intro a b _ _ _; simp [newManager, between, flowLoad]

theorem directed_ledger [RuneCase] : Ledger KeepsDirection Directed where
  bound h := h.toBound
  kept hk he h := h.kept hk he
  merge hne hA hold hP h := h.merge hne hA hold hP
  endpoint hip hA hAip h := h.countEndpoint hip hA hAip
  packet hsrc hdst h := h.addOrUpdateEdge hsrc hdst

/-- Every edge between two nodes has counted, each way, the packets that go that way. -/
def DirectionExact [RuneCase] (calls : List IngestCall) : Prop :=
  let m := ingestAll calls
  let pkts := packetsOf calls
  ∀ key e, m.edges.lookup key = some e → e.fromID ≠ e.toID →
    (e.forwardPackets = (pkts.filter (along m e.fromID e.toID)).length
        ∧ e.forwardBytes = ((pkts.filter (along m e.fromID e.toID)).map PacketInfo.length).sum)
      ∧ e.reversePackets = (pkts.filter (along m e.toID e.fromID)).length
        ∧ e.reverseBytes = ((pkts.filter (along m e.toID e.fromID)).map PacketInfo.length).sum

/-- **The directions are right in every run whose merges turn no unbalanced edge around.** -/
theorem directionExact [RuneCase] (calls : List IngestCall) (h : ∀ c ∈ calls, c.Clean)
    (hP : Run.Guarded IngestCall.apply (fun m c => c.Merges KeepsDirection m) newManager calls) :
    DirectionExact calls := by
  have hd := directed_ledger.run directed_init h hP
  unfold DirectionExact
  dsimp only
  generalize ingestAll calls = m at hd
  generalize endpointsOf calls = evs, packetsOf calls = pkts at hd
  intro key e he hne
  obtain ⟨hc, -, hf, ht⟩ := hd.wellKeyed key e he
  obtain ⟨-, hbt⟩ := hd.wellKeyed.between_ends he
  have hlt : e.fromID < e.toID := by
    have hkey : canonKey e.fromID e.toID = key := by rw [canonKey, hc]
    exact (isForward_iff hne (hkey ▸ hc)).mp rfl
  have hfwd := hd.flows e.fromID e.toID hf ht hne
  have hrev := hd.flows e.toID e.fromID ht hf hne.symm
  rw [hbt, flowLoad, if_pos hlt] at hfwd
  rw [between_comm, hbt, flowLoad, if_neg (String.lt_asymm hlt)] at hrev
  exact ⟨load_eq (fun _ => rfl) hfwd, load_eq (fun _ => rfl) hrev⟩

/-- A host that gets a name sorting before its peer's, as its address did. -/
def orderedRenameRun : List IngestCall :=
  [{ pkt := { srcIP := "10.0.0.5", dstIP := "8.8.8.8", length := 60 }, dstHostname := "zz.dns" },
   { pkt := { srcIP := "10.0.0.5", dstIP := "8.8.8.8", length := 40 }, srcHostname := "web.lan",
     dstHostname := "zz.dns" }]

theorem directionExact_orderedRename :
    (∀ c ∈ orderedRenameRun, c.Clean)
      ∧ Run.Guarded IngestCall.apply (fun m c => c.Merges KeepsDirection m) newManager
          orderedRenameRun
      ∧ (ingestAll orderedRenameRun).ipToNodeID.lookup "10.0.0.5" = some "web.lan"
      ∧ DirectionExact orderedRenameRun :=
  ⟨by decide, by decide, by decide, directionExact orderedRenameRun (by decide) (by decide)⟩

/-- A host that gets a name sorting after its peer's address, as its own address did not. -/
def turnedRenameRun : List IngestCall :=
  [{ pkt := { srcIP := "10.0.0.5", dstIP := "8.8.8.8", length := 60 } },
   { pkt := { srcIP := "10.0.0.5", dstIP := "8.8.8.8", length := 40 }, srcHostname := "web.lan" }]

/-- The edge is turned around and its counters stay: a packet that went the other way. -/
theorem directionExact_turnedRename :
    (∀ c ∈ turnedRenameRun, c.Clean) ∧ ¬ DirectionExact turnedRenameRun := by
  refine ⟨by decide, fun h => ?_⟩
  have hedge : ((ingestAll turnedRenameRun).edges.lookup "8.8.8.8<->web.lan").map
      (fun e => (e.fromID, e.toID, e.forwardPackets)) = some ("8.8.8.8", "web.lan", 1) := by
    decide
  obtain ⟨e, he, hends⟩ := Option.map_eq_some_iff.mp hedge
  rw [Prod.mk.injEq, Prod.mk.injEq] at hends
  obtain ⟨hf, ht, hone⟩ := hends
  have := (h _ e he (by rw [hf, ht]; decide)).1.1
  rw [hone, hf, ht] at this
  revert this
  decide

end Etherchimp
