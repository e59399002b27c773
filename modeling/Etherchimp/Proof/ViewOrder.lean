import Etherchimp.Proof.ViewEdges

/-!
# The view and the order of maps

The snapshot lists its nodes and edges in map order, and the build ranges over maps of
its own. Everything it selects is sorted by traffic and then by id, which leaves no
ties, but for two choices: which members of an opened subnet fit its budget, and which
of the raw edges that merge under one id gives the merged edge its ends and its
protocol. `TieFree` says neither of them has to break a tie.
-/

namespace Etherchimp

open Grouping

/-! ## Before folding -/

/-- The packets of an edge that count for a node. -/
def Edge.packetsAt (id : String) (e : Edge) : Nat :=
  (if e.fromID = id then e.packetCount else 0) + if e.toID = id then e.packetCount else 0

section Filter

variable {cfg : ViewConfig} {raw raw' : RawSnapshot}

theorem lookup_count (m : KeyedMap String Nat) (k a : String) (n : Nat) :
    ((m.insert k ((m.lookup k).getD 0 + n)).lookup a).getD 0
      = (m.lookup a).getD 0 + if k = a then n else 0 := by
  rw [KeyedMap.lookup_insert_eq]
  by_cases h : a = k
  · rw [if_pos h, if_pos h.symm, h]
    rfl
  · rw [if_neg h, if_neg (Ne.symm h)]
    rfl

theorem VisibleTraffic.lookup_foldl (edges : List Edge) (id : String) :
    ((edges.foldl VisibleTraffic.add {}).visible.lookup id).getD 0
        = (edges.map (Edge.packetsAt id)).sum
      ∧ ((edges.foldl VisibleTraffic.add {}).survivors.lookup id).getD false
        = edges.any fun e => e.fromID = id ∨ e.toID = id := by
  induction edges using List.reverseRecOn with
  | nil => exact ⟨rfl, rfl⟩
  | append_singleton edges e ih =>
    obtain ⟨hvis, hsurv⟩ := ih
    rw [List.foldl_concat, List.map_append, List.sum_append, List.any_append, ← hvis, ← hsurv]
    generalize edges.foldl VisibleTraffic.add {} = t
    constructor
    · rw [List.map_singleton, List.sum_singleton]
      unfold Edge.packetsAt
      rw [← Nat.add_assoc, ← lookup_count, ← lookup_count]
      rfl
    · have hadd : (t.add e).survivors.lookup id = if id = e.toID then some true
          else (t.survivors.insert e.fromID true).lookup id := KeyedMap.lookup_insert_eq ..
      rw [hadd, KeyedMap.lookup_insert_eq]
      by_cases ht : id = e.toID <;> by_cases hf : id = e.fromID
      · simp [← ht, ← hf]
      · simp [← ht]
      · simp [← hf]
      · simp [hf, ht, Ne.symm hf, Ne.symm ht]

/-- Visible packets by node do not depend on the order of the edges. -/
theorem visibleTraffic_same (hedges : raw.edges.Perm raw'.edges) (id : String) :
    ((visibleTraffic cfg raw).visible.lookup id).getD 0
        = ((visibleTraffic cfg raw').visible.lookup id).getD 0
      ∧ ((visibleTraffic cfg raw).survivors.lookup id).getD false
        = ((visibleTraffic cfg raw').survivors.lookup id).getD false := by
  have hperm := hedges.filter fun e => !cfg.hides e
  unfold visibleTraffic
  rw [(VisibleTraffic.lookup_foldl _ id).1, (VisibleTraffic.lookup_foldl _ id).1,
    (VisibleTraffic.lookup_foldl _ id).2, (VisibleTraffic.lookup_foldl _ id).2]
  refine ⟨(hperm.map _).sum_eq, ?_⟩
  rw [Bool.eq_iff_iff, List.any_eq_true, List.any_eq_true]
  exact exists_congr fun e => and_congr hperm.mem_iff Iff.rfl

variable (cfg) in
theorem unfolded_same (hnodes : raw.nodes.Perm raw'.nodes) (hedges : raw.edges.Perm raw'.edges) :
    SameFolding (unfolded cfg raw) (unfolded cfg raw') := by
  refine ⟨⟨fun id => (visibleTraffic_same hedges id).1, fun _ => rfl, fun _ => rfl, fun _ => rfl⟩, ?_⟩
  refine (hnodes.filter _).trans (List.Perm.of_eq (List.filter_congr fun n _ => ?_))
  rw [(visibleTraffic_same hedges n.ip).2]

end Filter

/-! ## Both levels -/

/-- No level has to split a tie: among the hosts of a /24, or what is found in a /16. -/
structure LevelsTieFree (cfg : ViewConfig) (isGroup : Node → Bool) (raw : RawSnapshot) : Prop where
  first : ∀ c, ¬ SplitsTie cfg isGroup (cidr24Of (unfolded cfg raw)) (unfolded cfg raw) c
  second : Folds16 cfg isGroup raw → ∀ p, cfg.isExpanded p = true → cfg.isFullExpand p = false →
    ¬ Cut.Splits (traffic cfg isGroup raw) (entries16 cfg isGroup raw p) cfg.budget

/-- Whether the second level splits a tie can be told from the hosts. -/
theorem splitsTie_second {go : Runtime} {cfg : ViewConfig} {isGroup : Node → Bool}
    {raw : RawSnapshot} (hc : ClearNames cfg isGroup raw) (p : String) :
    SplitsTie cfg isGroup (cidr16Of cfg (firstLevel go cfg isGroup raw))
      (firstLevel go cfg isGroup raw) p
    ↔ cfg.isExpanded p = true ∧ cfg.isFullExpand p = false
      ∧ Cut.Splits (traffic cfg isGroup raw) (entries16 cfg isGroup raw p) cfg.budget := by
  obtain ⟨fs, h⟩ := exists_firstFolds go hc
  unfold SplitsTie
  rw [Cut.splits_perm (h.entries_perm hc p), Cut.splits_congr fun k hk => h.traffic hc hk]

section Levels

variable {cfg : ViewConfig} {isGroup : Node → Bool} {raw raw' : RawSnapshot} {s s' : Folding}

theorem cidr24Of_same (h : SameMaps s s') : cidr24Of s = cidr24Of s' := by
  funext n
  unfold cidr24Of
  rw [h.isSuper]

theorem cidr16Of_same (h : SameMaps s s') : cidr16Of cfg s = cidr16Of cfg s' := by
  funext n
  unfold cidr16Of
  rw [h.isSuper]

/-- The map of supernodes of a partition flattens to one map, in whatever order. -/
theorem flatten_same {hosts : List Node} {full : Node → Prop} {r : Nat}
    {content : String → List Node} (go go' : Runtime) (hp : Partition hosts full r s content)
    (h : SameFolding s s') : SameFolding { s with hostToSuper := flatten go s.hostToSuper }
      { s' with hostToSuper := flatten go' s'.hostToSuper } := by
  have hranked' : Chains.Ranked (superRank hosts) s'.hostToSuper := by
    intro a b hab
    rw [← h.hostToSuper] at hab
    exact hp.ranked a b hab
  refine ⟨⟨h.visible, fun id => ?_, h.superHosts, h.tailSupers⟩, h.kept⟩
  have h₁ : (flatten go s.hostToSuper).lookup id = Chains.grandparent s.hostToSuper id :=
    Chains.lookup_shortened (hp.ranked.twoHops (superRank_le hosts)) (go.rangeOf_perm _) id
  have h₂ : (flatten go' s'.hostToSuper).lookup id = Chains.grandparent s'.hostToSuper id :=
    Chains.lookup_shortened (hranked'.twoHops (superRank_le hosts)) (go'.rangeOf_perm _) id
  show (flatten go s.hostToSuper).lookup id = (flatten go' s'.hostToSuper).lookup id
  rw [h₁, h₂]
  unfold Chains.grandparent
  rw [h.hostToSuper]
  exact Option.map_congr fun b _ => by rw [h.hostToSuper]

theorem firstLevel_same (go go' : Runtime) (hc : ClearNames cfg isGroup raw)
    (hfree : LevelsTieFree cfg isGroup raw) (h₀ : SameFolding (unfolded cfg raw) (unfolded cfg raw')) :
    SameFolding (firstLevel go cfg isGroup raw) (firstLevel go' cfg isGroup raw') := by
  unfold firstLevel
  rw [← cidr24Of_same h₀.toSameMaps]
  exact collapseLevel_same go go' (fits_24 hc) hc.nodup
    (fun _ _ => rfl) hfree.first h₀

/-- Both levels give the same, for every order of the snapshot. -/
theorem aggregate_same (go go' : Runtime) (hc : ClearNames cfg isGroup raw)
    (hfree : LevelsTieFree cfg isGroup raw) (h₀ : SameFolding (unfolded cfg raw) (unfolded cfg raw')) :
    SameFolding (aggregate go cfg isGroup (unfolded cfg raw))
      (aggregate go' cfg isGroup (unfolded cfg raw')) := by
  obtain ⟨content₁, hp₁⟩ := partition_firstLevel go hc
  have h₁ := firstLevel_same go go' hc hfree h₀
  have hagg : ∀ (go : Runtime) (raw : RawSnapshot), aggregate go cfg isGroup (unfolded cfg raw)
      = let s := firstLevel go cfg isGroup raw
        let s := if cfg.threshold < s.kept.length ∨ cfg.zoomBand = "far" then
            collapseLevel go cfg isGroup (cidr16Of cfg s) s
          else s
        { s with hostToSuper := flatten go s.hostToSuper } := fun _ _ => rfl
  rw [hagg, hagg]
  simp only [← h₁.kept.length_eq]
  by_cases hcond : cfg.threshold < (firstLevel go cfg isGroup raw).kept.length
      ∨ cfg.zoomBand = "far"
  · rw [if_pos hcond, if_pos hcond]
    have hfolds := (folds16_iff go hc).mp hcond
    have hties : ∀ c, ¬ SplitsTie cfg isGroup (cidr16Of cfg (firstLevel go cfg isGroup raw))
        (firstLevel go cfg isGroup raw) c := by
      intro c hties
      obtain ⟨hexp, hfull, hsplits⟩ := (splitsTie_second hc c).mp hties
      exact hfree.second hfolds c hexp hfull hsplits
    obtain ⟨content₂, hp₂⟩ := (hp₁.le (Nat.le_succ 1)).collapseLevel go isGroup
      (fits_16 hc hfolds hp₁) hc.nodup
    refine flatten_same go go' hp₂ ?_
    rw [← cidr16Of_same h₁.toSameMaps]
    exact collapseLevel_same go go' (fits_16 hc hfolds hp₁) hp₁.nodup hp₁.roots hties h₁
  · rw [if_neg hcond, if_neg hcond]
    exact flatten_same go go' hp₁ h₁

/-- **Folding does not depend on the order of the snapshot**, if no level splits a tie. -/
theorem foldedView_same (go go' : Runtime) (vs : Option ViewState)
    (hnodes : raw.nodes.Perm raw'.nodes) (hedges : raw.edges.Perm raw'.edges)
    (hc : aggActive cfg vs (survivors cfg raw).length = true → ClearNames cfg isGroup raw)
    (hfree : aggActive cfg vs (survivors cfg raw).length = true → LevelsTieFree cfg isGroup raw) :
    SameFolding (foldedView go raw cfg isGroup vs) (foldedView go' raw' cfg isGroup vs) := by
  have h₀ := unfolded_same cfg hnodes hedges
  have hlen : (survivors cfg raw').length = (survivors cfg raw).length := h₀.kept.length_eq.symm
  unfold foldedView
  simp only [hlen]
  by_cases hagg : aggActive cfg vs (survivors cfg raw).length = true
  · rw [if_pos hagg, if_pos hagg]
    exact aggregate_same go go' (hc hagg) (hfree hagg) h₀
  · rw [if_neg hagg, if_neg hagg]
    exact h₀

end Levels

/-! ## Selecting and styling -/

section Nodes

variable {F : Type} [FloatMath F] {cfg : ViewConfig} {vs : Option ViewState} {s s' : Folding}

variable (F) in
theorem byCount_busierNode (cfg : ViewConfig) (vs : Option ViewState) (s : Folding) :
    ByCount (busierNode F cfg vs s) (sortKey F cfg vs s) Node.ip where
  iff a b := by
    unfold busierNode
    simp only []
    by_cases hk : sortKey F cfg vs s a = sortKey F cfg vs s b
    · simp [hk]
    · simp [hk]

theorem busierNode_same (h : SameMaps s s') : busierNode F cfg vs s = busierNode F cfg vs s' := by
  funext a b
  unfold busierNode sortKey
  rw [h.effective]

theorem cutNodes_same (h : SameMaps s s') : cutNodes cfg s = cutNodes cfg s' := by
  funext kept
  unfold cutNodes isProtected
  rw [h.isSuper]

/-- Nodes with distinct ids are selected in one order. -/
theorem selectNodes_same (go go' : Runtime) (h : SameFolding s s')
    (hids : (s.kept.map Node.ip).Nodup) :
    selectNodes F go cfg vs s = selectNodes F go' cfg vs s' := by
  have hsub : ∀ n ∈ isolate cfg s, n ∈ s.kept := by
    intro n hn
    unfold isolate at hn
    split at hn
    · exact (List.mem_filter.mp hn).1
    · exact hn
  have hiso : (isolate cfg s).Perm (isolate cfg s') := by
    unfold isolate
    rw [h.toSameMaps.isSuper]
    split
    · exact h.kept.filter _
    · exact h.kept
  have hcount := byCount_busierNode F cfg vs s
  unfold selectNodes
  rw [← cutNodes_same h.toSameMaps, ← busierNode_same h.toSameMaps]
  refine congrArg _ (go.sortSlice_eq go' hcount.preorders hiso fun a ha b hb hab hba => ?_)
  exact List.inj_on_of_nodup_map hids (hsub a ha) (hsub b hb) (hcount.eq_of_ties hab hba).2

theorem remapID_same (h : SameMaps s s') : s.remapped = s'.remapped ∧ s.remapID = s'.remapID := by
  have hnil : ∀ m : KeyedMap String Nat, m.entries = [] ↔ ∀ id, m.lookup id = none := by
    intro m
    refine ⟨fun hm id => ?_, fun hm => ?_⟩
    · rw [AList.lookup_eq_none, AList.mem_keys, AList.keys, hm]
      exact List.not_mem_nil
    · refine List.eq_nil_iff_forall_not_mem.mpr fun e he => ?_
      have := (KeyedMap.mem_entries_iff m e.1 e.2).mp he
      rw [hm] at this
      exact absurd this nofun
  have hr : s.remapped = s'.remapped := by
    unfold Folding.remapped
    rw [Bool.eq_iff_iff, Bool.not_eq_true', Bool.not_eq_true', List.isEmpty_eq_false_iff,
      List.isEmpty_eq_false_iff, not_iff_not, hnil, hnil]
    exact forall_congr' fun id => by rw [h.superHosts]
  refine ⟨hr, ?_⟩
  funext id
  unfold Folding.remapID
  rw [hr, h.hostToSuper]

end Nodes

/-! ## The protocol of a merged edge -/

/-- The edge has the most packets of the list. -/
def Edge.Heaviest (es : List Edge) (e : Edge) : Prop :=
  e ∈ es ∧ ∀ e' ∈ es, e'.packetCount ≤ e.packetCount

section Protocols

variable {s : Folding}

theorem mergeEdge_pick (m : Edge) (d : Nat) (e : Edge) :
    ((mergeEdge s (some (m, d)) e).1.protocol = if d < e.packetCount then e.protocol else m.protocol)
      ∧ (mergeEdge s (some (m, d)) e).2 = if d < e.packetCount then e.packetCount else d := by
  unfold mergeEdge
  simp only [Option.getD_some]
  by_cases hd : d < e.packetCount
  · rw [if_pos hd, if_pos hd, if_pos hd]
    exact ⟨rfl, rfl⟩
  · rw [if_neg hd, if_neg hd, if_neg hd]
    refine ⟨?_, rfl⟩
    by_cases hf : s.remapID e.fromID = m.fromID
    · rw [if_pos hf]
    · rw [if_neg hf]

theorem mergeEdge_first (e : Edge) : (mergeEdge s none e).1.protocol = e.protocol
    ∧ (mergeEdge s none e).2 = e.packetCount := by
  obtain ⟨hp, hd⟩ := mergeEdge_pick (s := s)
    { id := (getCanonicalEdgeID (s.remapID e.fromID) (s.remapID e.toID)).1
      fromID := (getCanonicalEdgeID (s.remapID e.fromID) (s.remapID e.toID)).2.1
      toID := (getCanonicalEdgeID (s.remapID e.fromID) (s.remapID e.toID)).2.2
      protocol := e.protocol
      packetCount := 0
      byteCount := 0
      lastSeen := 0 } 0 e
  refine ⟨hp.trans ?_, hd.trans ?_⟩
  · split <;> rfl
  · split <;> omega

theorem merge_eq_none {es : List Edge}
    (h : es.foldl (fun o e => some (mergeEdge s o e)) none = none) : es = [] := by
  rcases List.eq_nil_or_concat' es with hnil | ⟨es', e', he⟩
  · exact hnil
  · rw [he, List.foldl_concat] at h
    exact absurd h nofun

/-- A heaviest edge that comes first gives its protocol. -/
theorem merge_first {e : Edge} : ∀ {es : List Edge}, (∀ e' ∈ es, e'.packetCount ≤ e.packetCount) →
    ∀ {m : Edge} {d : Nat}, (e :: es).foldl (fun o e => some (mergeEdge s o e)) none = some (m, d) →
      m.protocol = e.protocol ∧ d = e.packetCount := by
  intro es
  induction es using List.reverseRecOn with
  | nil =>
    intro _ m d h
    have h : mergeEdge s none e = (m, d) := Option.some.inj h
    obtain ⟨hp, hd⟩ := mergeEdge_first (s := s) e
    rw [h] at hp hd
    exact ⟨hp, hd⟩
  | append_singleton es e' ih =>
    intro hle m d h
    rw [← List.cons_append, List.foldl_concat, Option.some.injEq] at h
    cases hacc : (e :: es).foldl (fun o e => some (mergeEdge s o e)) none with
    | none => exact absurd (merge_eq_none hacc) (List.cons_ne_nil e es)
    | some x =>
      obtain ⟨m₀, d₀⟩ := x
      obtain ⟨hp₀, hd₀⟩ := ih (fun e' he' => hle e' (List.mem_append_left _ he')) hacc
      rw [hacc] at h
      obtain ⟨hp, hd⟩ := mergeEdge_pick (s := s) m₀ d₀ e'
      rw [h] at hp hd
      have hnot : ¬ d₀ < e'.packetCount := by
        have := hle e' (List.mem_append_right _ (List.mem_singleton.mpr rfl))
        omega
      rw [if_neg hnot] at hp hd
      exact ⟨hp.trans hp₀, hd.trans hd₀⟩

end Protocols

/-! ## Selecting edges -/

/-- An edge but for its protocol. -/
def Edge.look (e : Edge) : String × String × String × EdgeCounters :=
  (e.id, e.fromID, e.toID, e.counters)

theorem Sums.eq {parts parts' : List EdgeCounters} {c c' : EdgeCounters} (h : Sums parts c)
    (h' : Sums parts' c') (hp : parts.Perm parts') : c = c' := by
  obtain ⟨packets, bytes, fp, rp, fb, rb⟩ := c
  have hsum : ∀ w : EdgeCounters → Int, (parts.map w).sum = (parts'.map w).sum :=
    fun w => (hp.map w).sum_eq
  rw [EdgeCounters.mk.injEq]
  exact ⟨h.packets.trans ((hsum _).trans h'.packets.symm),
    h.bytes.trans ((hsum _).trans h'.bytes.symm),
    h.forwardPackets.trans ((hsum _).trans h'.forwardPackets.symm),
    h.reversePackets.trans ((hsum _).trans h'.reversePackets.symm),
    h.forwardBytes.trans ((hsum _).trans h'.forwardBytes.symm),
    h.reverseBytes.trans ((hsum _).trans h'.reverseBytes.symm)⟩

/-! ## Merging under an id -/

/-- The raw edges that merge under an id. -/
def merging (cfg : ViewConfig) (raw : RawSnapshot) (s : Folding) (nodes : List Node) (k : String) :
    List Edge :=
  (crossing cfg raw s nodes).filter fun e => pairKey s e = k

/-- The nodes of the view an edge joins, in the order of its id. -/
def pairEnds (s : Folding) (e : Edge) : String × String :=
  (getCanonicalEdgeID (s.remapID e.fromID) (s.remapID e.toID)).2

section Merging

variable {cfg : ViewConfig} {raw raw' : RawSnapshot} {s s' : Folding} {nodes : List Node} {c : Edge}
  {k : String}

theorem merging_same (h : s.remapID = s'.remapID) :
    merging cfg raw s nodes k = merging cfg raw s' nodes k := by
  unfold merging crossing pairKey joinsKept
  rw [h]

theorem counters_seenFrom (remap : String → String) (f : String) (e : Edge) :
    (e.seenFrom remap f).counters.packets = e.packetCount := by
  unfold Edge.seenFrom
  split <;> rfl

/-- The first edge names the merged one and gives it its ends; the packets add up. -/
theorem merge_opened {e : Edge} : ∀ {es : List Edge} {m : Edge} {d : Nat},
    (e :: es).foldl (fun o e => some (mergeEdge s o e)) none = some (m, d) →
      m.id = pairKey s e ∧ (m.fromID, m.toID) = pairEnds s e
        ∧ m.packetCount = ((e :: es).map Edge.packetCount).sum := by
  have hpackets : ∀ {m m' e : Edge}, Absorbs s m e m' →
      m'.packetCount = m.packetCount + e.packetCount := by
    intro m m' e ha
    have h := congrArg EdgeCounters.packets ha.counters
    have hadd : (m.counters.add (e.seenFrom s.remapID m.fromID).counters).packets
        = m.counters.packets + (e.seenFrom s.remapID m.fromID).counters.packets := rfl
    rw [hadd, counters_seenFrom] at h
    have h : (m'.packetCount : Int) = m.packetCount + e.packetCount := h
    omega
  intro es
  induction es using List.reverseRecOn with
  | nil =>
    intro m d h
    have h : mergeEdge s none e = (m, d) := Option.some.inj h
    have ha := mergeEdge_absorbs s
      { id := (getCanonicalEdgeID (s.remapID e.fromID) (s.remapID e.toID)).1
        fromID := (getCanonicalEdgeID (s.remapID e.fromID) (s.remapID e.toID)).2.1
        toID := (getCanonicalEdgeID (s.remapID e.fromID) (s.remapID e.toID)).2.2
        protocol := e.protocol
        packetCount := 0
        byteCount := 0
        lastSeen := 0 } 0 e
    have hm : (mergeEdge s none e).1 = m := by rw [h]
    refine ⟨hm ▸ ha.id, ?_, ?_⟩
    · rw [← hm]
      exact Prod.ext ha.fromID ha.toID
    · rw [← hm, List.map_singleton, List.sum_singleton]
      exact (hpackets ha).trans (Nat.zero_add _)
  | append_singleton es e' ih =>
    intro m d h
    rw [← List.cons_append, List.foldl_concat, Option.some.injEq] at h
    cases hacc : (e :: es).foldl (fun o e => some (mergeEdge s o e)) none with
    | none => exact absurd (merge_eq_none hacc) (List.cons_ne_nil e es)
    | some x =>
      obtain ⟨m₀, d₀⟩ := x
      obtain ⟨hid, hends, hsum⟩ := ih hacc
      rw [hacc] at h
      have ha := mergeEdge_absorbs s m₀ d₀ e'
      have hm : (mergeEdge s (some (m₀, d₀)) e').1 = m := by rw [h]
      refine ⟨?_, ?_, ?_⟩
      · rw [← hm, ha.id, hid]
      · rw [← hm, ha.fromID, ha.toID, hends]
      · rw [← hm, hpackets ha, hsum, ← List.cons_append, List.map_append, List.sum_append,
          List.map_singleton, List.sum_singleton]

/-- What is merged has the id of its key, and the packets of all that merge. -/
theorem merged_place {x : Edge × Nat} (hx : (merging cfg raw s nodes k).foldl
    (fun o e => some (mergeEdge s o e)) none = some x) :
    x.1.id = k ∧ x.1.packetCount = ((merging cfg raw s nodes k).map Edge.packetCount).sum := by
  cases hes : merging cfg raw s nodes k with
  | nil =>
    rw [hes] at hx
    exact absurd hx nofun
  | cons e es =>
    rw [hes] at hx
    obtain ⟨hid, -, hsum⟩ := merge_opened hx
    have hin : e ∈ merging cfg raw s nodes k := hes ▸ List.mem_cons_self
    exact ⟨hid.trans (of_decide_eq_true (List.mem_filter.mp hin).2), hsum⟩

/-- The merged candidates, by id. -/
theorem mem_candEdges_merging (go : Runtime) (hs : s.remapped = true) :
    c ∈ candEdges go cfg s (idSet nodes) raw ↔ ∃ d, (merging cfg raw s nodes c.id).foldl
      (fun o e => some (mergeEdge s o e)) none = some (c, d) := by
  rw [candEdges_merged go raw cfg hs, List.mem_map]
  constructor
  · rintro ⟨⟨k, x⟩, hkx, rfl⟩
    have hx := (go.mem_rangeOf).mp hkx
    rw [lookup_accumulate] at hx
    have hid : x.1.id = k := (merged_place hx).1
    exact ⟨x.2, hid.symm ▸ hx⟩
  · rintro ⟨d, hd⟩
    refine ⟨⟨c.id, (c, d)⟩, (go.mem_rangeOf).mpr ?_, rfl⟩
    rw [lookup_accumulate]
    exact hd

end Merging

/-! ## The whole view -/

section View

variable {F : Type} [FloatMath F]

/-- Two views show the same; of a map only what it holds matters. -/
structure SameView (v v' : ViewSnapshot F) : Prop where
  nodes : v.nodes = v'.nodes
  edges : v.edges = v'.edges
  hostToSuper : ∀ id, v.hostToSuper.lookup id = v'.hostToSuper.lookup id

/-- No choice of the build has to break a tie that shows. -/
structure TieFree (raw : RawSnapshot) (cfg : ViewConfig) (input : ViewInput F) : Prop where
  levels : aggActive cfg none (survivors cfg raw).length = true →
    LevelsTieFree cfg (isGroupNode input.overrides) raw
  /-- What merges under the id of a shown edge joins the same two nodes. -/
  ends : (input.folding Runtime.stable raw cfg).remapped = true →
    ∀ c ∈ input.shownEdges Runtime.stable raw cfg, ∀ a b : Edge,
      a ∈ merging cfg raw (input.folding Runtime.stable raw cfg)
        (input.shownNodes Runtime.stable raw cfg) c.id →
      b ∈ merging cfg raw (input.folding Runtime.stable raw cfg)
        (input.shownNodes Runtime.stable raw cfg) c.id →
      pairEnds (input.folding Runtime.stable raw cfg) a
        = pairEnds (input.folding Runtime.stable raw cfg) b
  protocols : (input.folding Runtime.stable raw cfg).remapped = true →
    ∀ c ∈ input.shownEdges Runtime.stable raw cfg, ∀ a b : Edge,
      a.Heaviest (merging cfg raw (input.folding Runtime.stable raw cfg)
        (input.shownNodes Runtime.stable raw cfg) c.id) →
      b.Heaviest (merging cfg raw (input.folding Runtime.stable raw cfg)
        (input.shownNodes Runtime.stable raw cfg) c.id) →
      shownProtocol a.protocol = shownProtocol b.protocol

variable {raw raw' : RawSnapshot} {cfg : ViewConfig} {input : ViewInput F}

omit [FloatMath F] in
/-- The nodes folded have distinct ids. -/
theorem folding_nodup (go : Runtime) (hclient : input.client = none)
    (hids : (raw.nodes.map Node.ip).Nodup)
    (hc : aggActive cfg none (survivors cfg raw).length = true →
      ClearNames cfg (isGroupNode input.overrides) raw) :
    ((input.folding go raw cfg).kept.map Node.ip).Nodup := by
  by_cases hagg : aggActive cfg none (survivors cfg raw).length = true
  · obtain ⟨content, h⟩ : ∃ content, Represents (survivors cfg raw) (OpenedFully cfg)
        (input.folding go raw cfg) content := represents_foldedView input.state (hc hagg)
    exact h.nodup
  · unfold ViewInput.folding ViewInput.state foldedView
    rw [hclient]
    simp only [Option.map_none, hagg]
    exact hids.sublist (List.filter_sublist.map Node.ip)

section Forward

variable (go : Runtime) (hclient : input.client = none) (hids : (raw.nodes.map Node.ip).Nodup)
  (hc : aggActive cfg none (survivors cfg raw).length = true →
    ClearNames cfg (isGroupNode input.overrides) raw)
  (hnodes : raw.nodes.Perm raw'.nodes) (hedges : raw.edges.Perm raw'.edges)

include hclient hc hnodes hedges

omit [FloatMath F] in
theorem folding_same (hfree : aggActive cfg none (survivors cfg raw).length = true →
      LevelsTieFree cfg (isGroupNode input.overrides) raw) :
    SameFolding (input.folding Runtime.stable raw cfg) (input.folding go raw' cfg) := by
  have hstate : input.state = none := by
    unfold ViewInput.state
    rw [hclient]
    rfl
  unfold ViewInput.folding
  rw [hstate]
  exact foldedView_same Runtime.stable go none hnodes hedges hc hfree

include hids

omit hnodes hedges in
/-- The same nodes are shown. -/
theorem shownNodes_same (h : SameFolding (input.folding Runtime.stable raw cfg)
      (input.folding go raw' cfg)) :
    input.shownNodes Runtime.stable raw cfg = input.shownNodes go raw' cfg :=
  selectNodes_same Runtime.stable go h
    (folding_nodup Runtime.stable hclient hids hc)

end Forward

end View

end Etherchimp
