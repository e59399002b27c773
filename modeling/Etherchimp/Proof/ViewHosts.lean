import Etherchimp.Proof.Aggregation

/-!
# Every host is in the view once

Whatever is folded, a host that survives the protocol filter is either shown or mapped
to the one supernode it is part of, and a supernode's counters are those of the hosts
mapped to it. This is of views that fit the node cap: the cut drops whole nodes.
-/

namespace Etherchimp

variable {F : Type} [FloatMath F]

/-! ## What styling leaves alone -/

/-- The identity and the counters of a node, and whether it is a supernode. -/
structure SameNode (a b : ViewNode F) : Prop where
  id : a.id = b.id
  packetCount : a.packetCount = b.packetCount
  byteCount : a.byteCount = b.byteCount
  isSubnet : a.isSubnet = b.isSubnet
  hostCount : a.hostCount = b.hostCount

theorem NodeOverride.apply_same (o : NodeOverride F) (vn : ViewNode F) : SameNode (o.apply vn) vn := by
  unfold NodeOverride.apply
  simp only []
  split_ifs <;> split <;> exact ⟨rfl, rfl, rfl, rfl, rfl⟩

theorem placeNode_same (cfg : ViewConfig) (le : Option (LayoutEngine F)) (vn : ViewNode F) :
    SameNode (placeNode cfg le vn) vn := by
  cases le <;> exact ⟨rfl, rfl, rfl, rfl, rfl⟩

omit [FloatMath F] in
theorem SameNode.trans {a b c : ViewNode F} (h : SameNode a b) (h' : SameNode b c) : SameNode a c :=
  ⟨h.id.trans h'.id, h.packetCount.trans h'.packetCount, h.byteCount.trans h'.byteCount,
    h.isSubnet.trans h'.isSubnet, h.hostCount.trans h'.hostCount⟩

theorem viewNode_same (cfg : ViewConfig) (le : Option (LayoutEngine F)) (ov : OverrideStore F)
    (s : Folding) (scale : Nat) (n : Node) :
    SameNode (viewNode cfg le ov s scale n) (styleSuper s (plainNode cfg ov s scale n)) := by
  unfold viewNode
  have hplace := placeNode_same cfg le (styleSuper s (plainNode cfg ov s scale n))
  simp only []
  split
  · exact hplace
  · exact (NodeOverride.apply_same _ _).trans hplace

/-- A styled node in terms of the folding. -/
structure Styled (s : Folding) (n : Node) (v : ViewNode F) : Prop where
  id : v.id = n.ip
  packetCount : v.packetCount = n.packetCount
  byteCount : v.byteCount = n.byteCount
  isSubnet : v.isSubnet = s.isSuper n.ip
  hostCount : v.isSubnet = true → v.hostCount = (s.superHosts.lookup n.ip).getD 0

theorem styleSuper_styled (cfg : ViewConfig) (ov : OverrideStore F) (s : Folding) (scale : Nat)
    (n : Node) : Styled s n (styleSuper s (plainNode cfg ov s scale n)) := by
  unfold styleSuper
  simp only []
  by_cases hc : 0 < (s.superHosts.lookup (plainNode cfg ov s scale n).id).getD 0
  · rw [if_pos hc]
    have hsup : s.isSuper n.ip = true := isSuper_iff.mpr hc
    split <;> exact ⟨rfl, rfl, rfl, hsup.symm, fun _ => rfl⟩
  · rw [if_neg hc]
    have hsup : s.isSuper n.ip = false := Bool.eq_false_iff.mpr fun h => hc (isSuper_iff.mp h)
    exact ⟨rfl, rfl, rfl, hsup.symm, fun h => absurd h Bool.false_ne_true⟩

theorem viewNode_styled (cfg : ViewConfig) (le : Option (LayoutEngine F)) (ov : OverrideStore F)
    (s : Folding) (scale : Nat) (n : Node) : Styled s n (viewNode cfg le ov s scale n) := by
  have hsame := viewNode_same cfg le ov s scale n
  have hst := styleSuper_styled cfg ov s scale n
  exact ⟨hsame.id.trans hst.id, hsame.packetCount.trans hst.packetCount,
    hsame.byteCount.trans hst.byteCount, hsame.isSubnet.trans hst.isSubnet,
    fun h => hsame.hostCount.trans (hst.hostCount (hsame.isSubnet ▸ h))⟩

/-! ## Views within the cap -/

section Within

variable (go : Runtime) (raw : RawSnapshot) (cfg : ViewConfig) (input : ViewInput F)

/-- With no focus and no cut the view shows exactly the folded nodes. -/
theorem shownNodes_perm (hfocus : cfg.focusCIDR = "")
    (hcap : (input.folding go raw cfg).kept.length ≤ cfg.nodeCap) :
    (input.shownNodes go raw cfg).Perm (input.folding go raw cfg).kept := by
  have hiso : isolate cfg (input.folding go raw cfg) = (input.folding go raw cfg).kept := by
    unfold isolate
    rw [hfocus, if_neg (fun h => h rfl)]
  unfold ViewInput.shownNodes selectNodes cutNodes
  rw [hiso, Runtime.length_sortSlice]
  simp only [if_pos hcap]
  exact go.sortSlice_perm _ _

variable [RuneCase]

theorem buildView_ids : (buildView go raw cfg input).1.nodes.map ViewNode.id
    = (input.shownNodes go raw cfg).map Node.ip := by
  unfold buildView
  simp only [List.map_map]
  exact List.map_congr_left fun n _ => (viewNode_styled cfg _ _ _ _ n).id

theorem mem_buildView {v : ViewNode F} (hv : v ∈ (buildView go raw cfg input).1.nodes) :
    ∃ n ∈ input.shownNodes go raw cfg, Styled (input.folding go raw cfg) n v := by
  unfold buildView at hv
  obtain ⟨n, hn, rfl⟩ := List.mem_map.mp hv
  exact ⟨n, hn, viewNode_styled ..⟩

theorem buildView_hostToSuper : (buildView go raw cfg input).1.hostToSuper
    = if (input.folding go raw cfg).remapped then (input.folding go raw cfg).hostToSuper else ∅ := rfl

end Within

/-! ## Hosts in the view -/

/-- The hosts that survive the filter and are mapped to a supernode. -/
def mappedHosts (raw : RawSnapshot) (cfg : ViewConfig) (view : ViewSnapshot F) (superID : String) :
    List Node :=
  (survivors cfg raw).filter fun n => view.hostToSuper.lookup n.ip = some superID

/-- Every host is in the view once, by itself or in one supernode. -/
structure HostsOnce (raw : RawSnapshot) (cfg : ViewConfig) (view : ViewSnapshot F) : Prop where
  nodup : (view.nodes.map ViewNode.id).Nodup
  once : ∀ n ∈ survivors cfg raw,
    (n.ip ∈ view.nodes.map ViewNode.id ∧ view.hostToSuper.lookup n.ip = none)
      ∨ ∃ v ∈ view.nodes, v.isSubnet = true ∧ view.hostToSuper.lookup n.ip = some v.id
          ∧ view.hostToSuper.lookup v.id = none ∧ n.ip ∉ view.nodes.map ViewNode.id
  totals : ∀ v ∈ view.nodes, v.isSubnet = true →
    v.hostCount = (mappedHosts raw cfg view v.id).length
      ∧ v.packetCount = ((mappedHosts raw cfg view v.id).map Node.packetCount).sum
      ∧ v.byteCount = ((mappedHosts raw cfg view v.id).map Node.byteCount).sum
  /-- No host of a /24 opened in full is folded. -/
  shown : ∀ n ∈ raw.nodes, OpenedFully cfg n → view.hostToSuper.lookup n.ip = none

section Once

variable (go : Runtime) (raw : RawSnapshot) (cfg : ViewConfig) (input : ViewInput F) [RuneCase]

/-- Without supernodes nothing is mapped, so both readings of the map agree on hosts. -/
theorem view_lookup {content : String → List Node}
    (h : Represents (survivors cfg raw) (OpenedFully cfg) (input.folding go raw cfg) content)
    {n : Node} (hn : n ∈ survivors cfg raw) :
    (buildView go raw cfg input).1.hostToSuper.lookup n.ip
      = (input.folding go raw cfg).hostToSuper.lookup n.ip := by
  rw [buildView_hostToSuper]
  by_cases hr : (input.folding go raw cfg).remapped = true
  · rw [if_pos hr]
  · rw [if_neg hr]
    obtain ⟨k, hk, hnk⟩ := List.mem_flatMap.mp (h.split.mem_iff.mpr hn)
    have hempty : (input.folding go raw cfg).superHosts.entries = [] := by
      unfold Folding.remapped at hr
      simpa using hr
    have hsup : (input.folding go raw cfg).isSuper k.ip = false := by
      refine Bool.eq_false_iff.mpr fun hs => ?_
      rw [isSuper_iff] at hs
      have hnone : (input.folding go raw cfg).superHosts.lookup k.ip = none := by
        rw [AList.lookup_eq_none, AList.mem_keys, AList.keys, hempty]
        exact List.not_mem_nil
      rw [hnone] at hs
      exact absurd hs (Nat.lt_irrefl 0)
    rw [h.loose k hk hsup] at hnk
    rw [List.mem_singleton.mp hnk, h.roots k hk]
    rfl

theorem view_root {content : String → List Node}
    (h : Represents (survivors cfg raw) (OpenedFully cfg) (input.folding go raw cfg) content)
    {k : Node} (hk : k ∈ (input.folding go raw cfg).kept) :
    (buildView go raw cfg input).1.hostToSuper.lookup k.ip = none := by
  rw [buildView_hostToSuper]
  split
  · exact h.roots k hk
  · rfl

omit [FloatMath F] [RuneCase] in
/-- Of nodes with distinct ids one contributes. -/
theorem flatMap_one (g : List Node) {k : Node} : ∀ {l : List Node}, (l.map Node.ip).Nodup → k ∈ l →
    (l.flatMap fun a => if a.ip = k.ip then g else []) = g
  | a :: l, hnd, hk => by
    rw [List.map_cons, List.nodup_cons] at hnd
    rw [List.flatMap_cons]
    by_cases ha : a.ip = k.ip
    · have hnil : (l.flatMap fun b => if b.ip = k.ip then g else []) = [] := by
        refine List.flatMap_eq_nil_iff.mpr fun b hb => if_neg fun hbk => hnd.1 ?_
        rw [ha, ← hbk]
        exact List.mem_map_of_mem hb
      rw [if_pos ha, hnil, List.append_nil]
    · rw [if_neg ha, List.nil_append]
      have hkl : k ∈ l := (List.mem_cons.mp hk).resolve_left fun h => ha (by rw [h])
      exact flatMap_one g hnd.2 hkl

/-- The hosts mapped to a supernode are those it stands for. -/
theorem mappedHosts_perm {content : String → List Node}
    (h : Represents (survivors cfg raw) (OpenedFully cfg) (input.folding go raw cfg) content)
    {k : Node} (hk : k ∈ (input.folding go raw cfg).kept)
    (hs : (input.folding go raw cfg).isSuper k.ip = true) :
    (mappedHosts raw cfg (buildView go raw cfg input).1 k.ip).Perm (content k.ip) := by
  unfold mappedHosts
  refine (h.split.symm.filter _).trans (List.Perm.of_eq ?_)
  rw [List.filter_flatMap]
  have hmem : ∀ k' ∈ (input.folding go raw cfg).kept, ∀ n ∈ content k'.ip,
      (buildView go raw cfg input).1.hostToSuper.lookup n.ip
        = if (input.folding go raw cfg).isSuper k'.ip then some k'.ip else none := by
    intro k' hk' n hn
    have hsurv := h.split.mem_iff.mp (List.mem_flatMap.mpr ⟨k', hk', hn⟩)
    rw [view_lookup go raw cfg input h hsurv]
    by_cases hs' : (input.folding go raw cfg).isSuper k'.ip = true
    · rw [if_pos hs', h.owner k' hk' hs' n hn]
    · rw [h.loose k' hk' (Bool.eq_false_iff.mpr hs')] at hn
      rw [if_neg hs', List.mem_singleton.mp hn, h.roots k' hk']
  rw [← flatMap_one (content k.ip) h.nodup hk]
  refine List.flatMap_congr fun k' hk' => ?_
  by_cases he : k'.ip = k.ip
  · rw [if_pos he, he]
    refine List.filter_eq_self.mpr fun n hn => ?_
    rw [hmem k' hk' n (he ▸ hn), he, if_pos hs]
    exact decide_eq_true rfl
  · rw [if_neg he]
    refine List.filter_eq_nil_iff.mpr fun n hn => ?_
    rw [hmem k' hk' n hn]
    split
    · simp [he]
    · simp

/--
**Aggregation partitions the hosts**: in a view within the node cap and without a focus,
every surviving host is shown or mapped to one supernode, whose counters are the totals
of the hosts mapped to it.
-/
theorem hostsOnce (hids : (raw.nodes.map Node.ip).Nodup)
    (hslash : ∀ n ∈ raw.nodes, '/' ∉ n.ip.toList) (hfocus : cfg.focusCIDR = "")
    (hcap : (input.folding go raw cfg).kept.length ≤ cfg.nodeCap) :
    HostsOnce raw cfg (buildView go raw cfg input).1 := by
  have hc := clearNames (isGroupNode input.overrides) raw cfg hids hslash
  have hraw := List.inj_on_of_nodup_map hids
  obtain ⟨content, h⟩ : ∃ content, Represents (survivors cfg raw) (OpenedFully cfg)
      (input.folding go raw cfg) content := represents_foldedView input.state hc
  have hperm := shownNodes_perm go raw cfg input hfocus hcap
  have hids : (buildView go raw cfg input).1.nodes.map ViewNode.id
      = (input.shownNodes go raw cfg).map Node.ip := buildView_ids go raw cfg input
  have hmem : ∀ id, id ∈ (buildView go raw cfg input).1.nodes.map ViewNode.id
      ↔ id ∈ (input.folding go raw cfg).kept.map Node.ip := by
    intro id
    rw [hids, (hperm.map Node.ip).mem_iff]
  refine ⟨?_, fun n hn => ?_, fun v hv hsub => ?_, fun n hn hfull => ?_⟩
  · rw [hids, (hperm.map Node.ip).nodup_iff]
    exact h.nodup
  · -- the node a host is part of is kept
    obtain ⟨k, hk, hnk⟩ := List.mem_flatMap.mp (h.split.mem_iff.mpr hn)
    by_cases hs : (input.folding go raw cfg).isSuper k.ip = true
    · have howner := h.owner k hk hs n hnk
      obtain ⟨v, hv, hvid⟩ := List.mem_map.mp ((hmem k.ip).mpr (List.mem_map_of_mem hk))
      obtain ⟨k', hk', hst⟩ := mem_buildView go raw cfg input hv
      refine .inr ⟨v, hv, ?_, ?_, ?_, fun hin => ?_⟩
      · rw [hst.isSubnet, ← hst.id, hvid, hs]
      · rw [view_lookup go raw cfg input h hn, howner, hvid]
      · rw [hvid]
        exact view_root go raw cfg input h hk
      · obtain ⟨k'', hk'', he⟩ := List.mem_map.mp ((hmem n.ip).mp hin)
        rw [← he, h.roots k'' hk''] at howner
        exact absurd howner nofun
    · rw [h.loose k hk (Bool.eq_false_iff.mpr hs)] at hnk
      rw [List.mem_singleton.mp hnk]
      exact .inl ⟨(hmem k.ip).mpr (List.mem_map_of_mem hk), view_root go raw cfg input h hk⟩
  · obtain ⟨k, hk, hst⟩ := mem_buildView go raw cfg input hv
    have hk := hperm.mem_iff.mp hk
    have hs : (input.folding go raw cfg).isSuper k.ip = true := hst.isSubnet ▸ hsub
    have hmapped := mappedHosts_perm go raw cfg input h hk hs
    rw [hst.id, hst.hostCount hsub, hst.packetCount, hst.byteCount, h.count k hk hs, h.packets k hk,
      h.bytes k hk, hmapped.length_eq, (hmapped.map Node.packetCount).sum_eq,
      (hmapped.map Node.byteCount).sum_eq]
    exact ⟨rfl, rfl, rfl⟩
  · by_cases hsurv : n ∈ survivors cfg raw
    · rw [view_lookup go raw cfg input h hsurv]
      exact h.shown n hsurv hfull
    · -- a node the filter dropped is no key at all
      rw [buildView_hostToSuper]
      split
      · cases hb : (input.folding go raw cfg).hostToSuper.lookup n.ip with
        | none => rfl
        | some b =>
          rcases h.keys n.ip b hb with hpos | hin
          · rw [superRank_plain (hslash n hn)] at hpos
            exact absurd hpos (Nat.lt_irrefl 0)
          · obtain ⟨n', hn', he⟩ := List.mem_map.mp hin
            exact absurd (hraw (List.mem_filter.mp hn').1 hn he ▸ hn') hsurv
      · rfl

end Once

/-- Four hosts of one /24. -/
def crowdedSubnet : RawSnapshot where
  nodes := ["10.0.0.1", "10.0.0.2", "10.0.0.3", "10.0.0.4"].map fun ip =>
    { ip := ip, hostname := "", ips := [ip], packetCount := 7, byteCount := 420, lastSeen := 0,
      isGroup := false }
  edges := []

/-- Zoomed out, the hosts fold. -/
theorem hostsOnce_far :
    HostsOnce crowdedSubnet { zoomBand := "far" }
      (buildView Runtime.stable crowdedSubnet { zoomBand := "far" } ({} : ViewInput Float)).1 :=
  hostsOnce Runtime.stable crowdedSubnet { zoomBand := "far" } {} (by decide) (by decide) rfl
    (by decide)

end Etherchimp
