import Etherchimp.Proof.LevelTies
import Etherchimp.Proof.ViewOrder

/-!
# When the view does not depend on map order

`TieFree` is enough for the view to be one and the same; here it is shown to be needed.
A tie a level splits can be split another way, and then a node is mapped in one view and
not in the other. A raw edge among the heaviest of a merged edge can come first, and
then gives it its protocol.
-/

namespace Etherchimp

open Grouping

/-- Whatever order the maps are ranged over and ties sorted in, the view is the same. -/
def OrderFree {F : Type} [FloatMath F] [RuneCase] (raw : RawSnapshot) (cfg : ViewConfig)
    (input : ViewInput F) : Prop :=
  ∀ (go go' : Runtime) (raw' : RawSnapshot), raw.nodes.Perm raw'.nodes → raw.edges.Perm raw'.edges →
    SameView (buildView go raw cfg input).1 (buildView go' raw' cfg input).1

/-! ## Ties of a level -/

section Levels

variable {cfg : ViewConfig} {isGroup : Node → Bool} {raw : RawSnapshot} {s : Folding}

theorem unfolded_mapped : (unfolded cfg raw).Mapped := fun _ h => absurd h Bool.false_ne_true

theorem secondLevel_mapped (go : Runtime) : (secondLevel go cfg isGroup raw).Mapped := by
  have hfirst : (firstLevel go cfg isGroup raw).Mapped := unfolded_mapped.collapseLevel
  unfold secondLevel
  simp only []
  split
  · exact hfirst.collapseLevel
  · exact hfirst

/-- The second level leaves alone the hosts of a subnet the user has opened. -/
theorem cidr16Of_opened {n : Node} (hsup : s.isSuper n.ip = false)
    (hexp : cfg.isExpanded (primarySubnet24 n ++ ".0/24") = true) : cidr16Of cfg s n = "" := by
  unfold cidr16Of
  rw [hsup, if_neg Bool.false_ne_true]
  simp only [hexp, if_true, ite_self]
  rfl

theorem secondLevel_opened (go : Runtime) (hc : ClearNames cfg isGroup raw) {n : Node} {c : String}
    (hn : n ∈ subnetNodes isGroup (cidr24Of (unfolded cfg raw)) (survivors cfg raw) c)
    (hexp : cfg.isExpanded c = true)
    (h : ((secondLevel go cfg isGroup raw).hostToSuper.lookup n.ip).isSome = true) :
    ((firstLevel go cfg isGroup raw).hostToSuper.lookup n.ip).isSome = true := by
  obtain ⟨content₁, hp₁⟩ := partition_firstLevel go hc
  obtain ⟨hk, -, hcidr, hne⟩ := mem_subnetNodes.mp hn
  unfold secondLevel at h
  simp only [] at h
  split at h
  · rcases collapseLevel_mapped_cases h with h | ⟨c', n', hn', he⟩
    · exact h
    · -- the only node of that id is the host, and its /24 is open
      exfalso
      obtain ⟨hk', -, hc', hne'⟩ := mem_subnetNodes.mp hn'
      have hrank : superRank (survivors cfg raw) n'.ip = 0 := he ▸ superRank_host hk
      obtain rfl := List.inj_on_of_nodup_map hc.nodup (hp₁.host_of_rank hk' hrank) hk he
      have hname : primarySubnet24 n' ++ ".0/24" = c := by
        have h24 : host24 n' = c := hcidr
        rw [← h24, ← (host24_ne_empty (h24.symm ▸ hne)).2]
      rw [cidr16Of_opened (hp₁.host_not_super hk) (hname.symm ▸ hexp)] at hc'
      exact hne' hc'.symm
  · exact h

end Levels

section Needed

variable {F : Type} [FloatMath F] [RuneCase] {raw : RawSnapshot} {cfg : ViewConfig}
  {input : ViewInput F}

/-- What a view maps is what both levels have mapped. -/
theorem view_mapped (go : Runtime) (hclient : input.client = none)
    (hc : ClearNames cfg (isGroupNode input.overrides) raw)
    (hagg : aggActive cfg none (survivors cfg raw).length = true) (id : String) :
    ((buildView go raw cfg input).1.hostToSuper.lookup id).isSome = true
      ↔ ((secondLevel go cfg (isGroupNode input.overrides) raw).hostToSuper.lookup id).isSome
        = true := by
  have hfold : input.folding go raw cfg
      = aggregate go cfg (isGroupNode input.overrides) (unfolded cfg raw) := by
    unfold ViewInput.folding ViewInput.state foldedView
    rw [hclient]
    simp only [Option.map_none, hagg, if_true]
    rfl
  obtain ⟨content, hp⟩ := partition_secondLevel go hc
  have hflat : ((flatten go (secondLevel go cfg (isGroupNode input.overrides) raw).hostToSuper).lookup
      id).isSome = ((secondLevel go cfg (isGroupNode input.overrides) raw).hostToSuper.lookup
        id).isSome := by
    have hlookup : (flatten go (secondLevel go cfg (isGroupNode input.overrides) raw).hostToSuper).lookup
        id = _ := Chains.lookup_shortened (hp.ranked.twoHops (superRank_le _)) (go.rangeOf_perm _) id
    rw [hlookup]
    unfold Chains.grandparent
    exact Option.isSome_map
  have hremapped : (input.folding go raw cfg).remapped
      = (secondLevel go cfg (isGroupNode input.overrides) raw).remapped := by
    rw [hfold]
    rfl
  have hmap : (input.folding go raw cfg).hostToSuper
      = flatten go (secondLevel go cfg (isGroupNode input.overrides) raw).hostToSuper := by
    rw [hfold]
    rfl
  rw [buildView_hostToSuper, hremapped, hmap]
  by_cases hr : (secondLevel go cfg (isGroupNode input.overrides) raw).remapped = true
  · rw [if_pos hr, hflat]
  · rw [if_neg hr]
    exact ⟨fun h => absurd h Bool.false_ne_true, fun h => absurd (secondLevel_mapped go id h) hr⟩

/-- **No level splits a tie** where the view is always the same. -/
theorem OrderFree.levels (h : OrderFree raw cfg input) (hclient : input.client = none)
    (hc : ClearNames cfg (isGroupNode input.overrides) raw)
    (hagg : aggActive cfg none (survivors cfg raw).length = true) :
    LevelsTieFree cfg (isGroupNode input.overrides) raw := by
  have hsame : ∀ id, ((secondLevel Runtime.stable cfg (isGroupNode input.overrides) raw).hostToSuper.lookup
      id).isSome = true ↔ ((secondLevel (Runtime.swapAt cfg.budget) cfg (isGroupNode input.overrides)
        raw).hostToSuper.lookup id).isSome = true := by
    intro id
    rw [← view_mapped Runtime.stable hclient hc hagg, ← view_mapped _ hclient hc hagg,
      (h Runtime.stable (Runtime.swapAt cfg.budget) raw (List.Perm.refl _)
        (List.Perm.refl _)).hostToSuper]
  have hfirst : ∀ c, ¬ SplitsTie cfg (isGroupNode input.overrides) (cidr24Of (unfolded cfg raw))
      (unfolded cfg raw) c := by
    intro c htie
    obtain ⟨n, hn, hmapped, hnot⟩ := tie_shows (fits_24 hc) hc.nodup (fun _ _ => rfl) htie
    have hstable : ((secondLevel Runtime.stable cfg (isGroupNode input.overrides) raw).hostToSuper.lookup
        n.ip).isSome = true := by
      unfold secondLevel
      simp only []
      split
      · exact collapseLevel_mono hmapped
      · exact hmapped
    have hswap := secondLevel_opened _ hc hn htie.1 ((hsame n.ip).mp hstable)
    have hnot : (firstLevel (Runtime.swapAt cfg.budget) cfg (isGroupNode input.overrides)
        raw).hostToSuper.lookup n.ip = none := hnot
    rw [hnot] at hswap
    exact Bool.false_ne_true hswap
  refine ⟨hfirst, fun hfolds p hexp hfull hsplits => ?_⟩
  have hcond := (folds16_iff Runtime.stable hc).mpr hfolds
  have hagree : firstLevel Runtime.stable cfg (isGroupNode input.overrides) raw
      = firstLevel (Runtime.swapAt cfg.budget) cfg (isGroupNode input.overrides) raw :=
    levels_agree (fits_24 hc) hfirst
  obtain ⟨content₁, hp₁⟩ := partition_firstLevel Runtime.stable hc
  obtain ⟨n, hn, hmapped, hnot⟩ := tie_shows (fits_16 hc hfolds hp₁) hp₁.nodup hp₁.roots
    ((splitsTie_second hc p).mpr ⟨hexp, hfull, hsplits⟩)
  have hstable : secondLevel Runtime.stable cfg (isGroupNode input.overrides) raw
      = collapseLevel Runtime.stable cfg (isGroupNode input.overrides)
        (cidr16Of cfg (firstLevel Runtime.stable cfg (isGroupNode input.overrides) raw))
        (firstLevel Runtime.stable cfg (isGroupNode input.overrides) raw) := if_pos hcond
  have hswap : secondLevel (Runtime.swapAt cfg.budget) cfg (isGroupNode input.overrides) raw
      = collapseLevel (Runtime.swapAt cfg.budget) cfg (isGroupNode input.overrides)
        (cidr16Of cfg (firstLevel Runtime.stable cfg (isGroupNode input.overrides) raw))
        (firstLevel Runtime.stable cfg (isGroupNode input.overrides) raw) := by
    unfold secondLevel
    simp only [← hagree]
    exact if_pos hcond
  have hboth := (hsame n.ip).mp (hstable ▸ hmapped)
  rw [hswap, hnot] at hboth
  exact Bool.false_ne_true hboth

/-! ## Ties of a merged edge -/

section Edges

variable (h : OrderFree raw cfg input) (hclient : input.client = none)
  (hids : (raw.nodes.map Node.ip).Nodup)
  (hc : aggActive cfg none (survivors cfg raw).length = true →
    ClearNames cfg (isGroupNode input.overrides) raw)
  (hfree : aggActive cfg none (survivors cfg raw).length = true →
    LevelsTieFree cfg (isGroupNode input.overrides) raw)
  (hr : (input.folding Runtime.stable raw cfg).remapped = true)

include h hclient hids hc hfree hr

/--
Any raw edge that merges under the id of a shown edge can come first, and then gives the
shown edge its ends; a heaviest one gives it its protocol.
-/
theorem OrderFree.opened {c e : Edge} (hshown : c ∈ input.shownEdges Runtime.stable raw cfg)
    (he : e ∈ merging cfg raw (input.folding Runtime.stable raw cfg)
      (input.shownNodes Runtime.stable raw cfg) c.id) :
    pairEnds (input.folding Runtime.stable raw cfg) e = (c.fromID, c.toID)
      ∧ (e.Heaviest (merging cfg raw (input.folding Runtime.stable raw cfg)
          (input.shownNodes Runtime.stable raw cfg) c.id) →
        shownProtocol c.protocol = shownProtocol e.protocol) := by
  have hraw : e ∈ raw.edges :=
    (List.mem_filter.mp (List.mem_filter.mp (List.mem_filter.mp he).1).1).1
  -- the snapshot that lists this raw edge first
  let first : RawSnapshot := { raw with edges := e :: raw.edges.erase e }
  have hedges : raw.edges.Perm first.edges := List.perm_cons_erase hraw
  have hview : (input.shownEdges Runtime.stable raw cfg).map (viewEdge : Edge → ViewEdge F)
      = (input.shownEdges Runtime.stable first cfg).map viewEdge :=
    (h Runtime.stable Runtime.stable first (List.Perm.refl _) hedges).edges
  obtain ⟨b, hb, hbc⟩ := List.mem_map.mp (hview ▸ List.mem_map_of_mem hshown)
  have hid : b.id = c.id := congrArg ViewEdge.id hbc
  have hsame : SameFolding (input.folding Runtime.stable raw cfg)
      (input.folding Runtime.stable first cfg) :=
    folding_same Runtime.stable hclient hc (List.Perm.refl _) hedges hfree
  obtain ⟨hremapped, hremap⟩ := remapID_same hsame.toSameMaps
  have hnodes := shownNodes_same Runtime.stable hclient hids hc hsame
  have hbcand := (Runtime.stable.mem_sortSlice).mp (List.mem_of_mem_take hb)
  unfold ViewInput.shownCandEdges at hbcand
  rw [← hnodes] at hbcand
  obtain ⟨d, hm⟩ := (mem_candEdges_merging Runtime.stable (hremapped ▸ hr)).mp hbcand
  rw [hid, ← merging_same hremap] at hm
  -- it comes first under the id too
  have hmerging : merging cfg first (input.folding Runtime.stable raw cfg)
      (input.shownNodes Runtime.stable raw cfg) c.id
      = e :: merging cfg { raw with edges := raw.edges.erase e }
        (input.folding Runtime.stable raw cfg) (input.shownNodes Runtime.stable raw cfg) c.id := by
    obtain ⟨hcross, hkey⟩ := List.mem_filter.mp he
    obtain ⟨hkept, hne⟩ := List.mem_filter.mp hcross
    have hcrossing : crossing cfg first (input.folding Runtime.stable raw cfg)
        (input.shownNodes Runtime.stable raw cfg)
        = e :: crossing cfg { raw with edges := raw.edges.erase e }
          (input.folding Runtime.stable raw cfg) (input.shownNodes Runtime.stable raw cfg) := by
      unfold crossing
      rw [List.filter_cons_of_pos (List.mem_filter.mp hkept).2]
      exact List.filter_cons_of_pos hne
    unfold merging
    rw [hcrossing]
    exact List.filter_cons_of_pos hkey
  rw [hmerging] at hm
  obtain ⟨-, hends, -⟩ := merge_opened hm
  have hpair : pairEnds (input.folding Runtime.stable first cfg) e
      = pairEnds (input.folding Runtime.stable raw cfg) e := by
    unfold pairEnds
    rw [hremap]
  refine ⟨?_, fun hheavy => ?_⟩
  · rw [← hpair, ← hends]
    exact Prod.ext (congrArg ViewEdge.fromID hbc) (congrArg ViewEdge.toID hbc)
  · have hle : ∀ e' ∈ merging cfg { raw with edges := raw.edges.erase e }
        (input.folding Runtime.stable raw cfg) (input.shownNodes Runtime.stable raw cfg) c.id,
        e'.packetCount ≤ e.packetCount := fun e' he' =>
      hheavy.2 e' (((((List.erase_sublist).filter _).filter _).filter _).mem he')
    have hp : b.protocol = e.protocol := (merge_first hle hm).1
    have hbc : shownProtocol b.protocol = shownProtocol c.protocol :=
      congrArg ViewEdge.protocol hbc
    rw [← hbc, hp]

end Edges

end Needed

/-- A host that goes by the name of another /24. -/
def clashingHost : Node where
  ip := "10.0.0.0/24"
  hostname := ""
  ips := ["10.0.1.1"]
  packetCount := 7
  byteCount := 420
  lastSeen := 0
  isGroup := false

/-- With two others of its /24, and three hosts of the one whose name it has. -/
def clashingHosts (first others : List Node) : RawSnapshot where
  nodes := first ++ ["10.0.1.2", "10.0.1.3", "10.0.0.1", "10.0.0.2", "10.0.0.3"].map
    (fun ip => { clashingHost with ip := ip, ips := [ip] }) ++ others
  edges := []

/--
There is no tie to break, but the host counts as three when the /24 it is named like has
been folded before its own.
-/
theorem orderFree_clash :
    TieFree (clashingHosts [] [clashingHost]) { zoomBand := "far" } ({} : ViewInput Float)
      ∧ ¬ OrderFree (clashingHosts [] [clashingHost]) { zoomBand := "far" } ({} : ViewInput Float) := by
  constructor
  · have hclosed : ∀ c, ({ zoomBand := "far" } : ViewConfig).isExpanded c = true → False := by
      intro c hc
      exact absurd hc (by simp [ViewConfig.isExpanded, ViewConfig.isFullExpand])
    have hedges : ({} : ViewInput Float).shownEdges Runtime.stable
        (clashingHosts [] [clashingHost]) { zoomBand := "far" } = [] :=
      List.map_eq_nil_iff.mp (by decide +kernel : List.map Edge.id _ = [])
    refine ⟨fun _ => ⟨fun c h => hclosed c h.1, fun _ p hexp => absurd hexp (hclosed p)⟩,
      fun _ c hc => ?_, fun _ c hc => ?_⟩
    · rw [hedges] at hc
      exact absurd hc List.not_mem_nil
    · rw [hedges] at hc
      exact absurd hc List.not_mem_nil
  · intro h
    have hnodes := (h Runtime.stable Runtime.stable (clashingHosts [clashingHost] [])
      List.perm_append_comm (List.Perm.refl _)).nodes
    have hcounts := congrArg (List.map fun n : ViewNode Float => n.hostCount) hnodes
    unfold buildView at hcounts
    revert hcounts
    decide +kernel

end Etherchimp
