import Etherchimp.Proof.Aggregation

/-!
# What stands for a host

After the first level a host of a /24 stands for itself, or the /24's supernode or its
tail stands for it. The second level folds that node into the /16 or its tail, or leaves
it alone, and the host's chain of supernodes follows it.
-/

namespace Etherchimp

open Chains Grouping

/-! ## The node a host is shown by -/

section Roots

variable {hosts : List Node} {full : Node → Prop} {r : Nat} {s : Folding}
  {content : String → List Node}

/-- The end of the chain of supernodes from an id. -/
def Folding.rootOf (s : Folding) (id : String) : String := (grandparent s.hostToSuper id).getD id

/-- Each host's chain ends at the kept node that stands for it. -/
theorem Partition.rootOf_content (h : Partition hosts full r s content) {k n : Node}
    (hk : k ∈ s.kept) (hn : n ∈ content k.ip) : s.rootOf n.ip = k.ip := by
  have hroot := h.roots k hk
  unfold Folding.rootOf
  by_cases he : n.ip = k.ip
  · unfold grandparent
    rw [he, hroot]
    rfl
  · rw [(h.leads k hk n hn).grandparent (h.ranked.twoHops (superRank_le hosts)) hroot he]
    rfl

theorem Partition.exists_root (h : Partition hosts full r s content) {n : Node} (hn : n ∈ hosts) :
    ∃ k ∈ s.kept, s.rootOf n.ip = k.ip := by
  obtain ⟨k, hk, hnk⟩ := List.mem_flatMap.mp (h.split.mem_iff.mpr hn)
  exact ⟨k, hk, h.rootOf_content hk hnk⟩

/-- A supernode stands for some host. -/
theorem Partition.content_ne_nil (h : Partition hosts full r s content) {k : Node}
    (hk : k ∈ s.kept) : ∃ n, n ∈ content k.ip ∧ n ∈ hosts := by
  have hpos := memberHostCount_pos s k
  rw [h.count k hk] at hpos
  obtain ⟨n, hn⟩ := List.exists_mem_of_length_pos hpos
  exact ⟨n, hn, h.split.mem_iff.mp (List.mem_flatMap.mpr ⟨k, hk, hn⟩)⟩

end Roots

/-! ## After the first level -/

section First

variable {go : Runtime} {cfg : ViewConfig} {isGroup : Node → Bool} {raw : RawSnapshot}
  {n k : Node} {a b c : Nat}

theorem host24_net (hnet : primarySubnet24 n = net24Text a b c) : host24 n = cidr24 a b c := by
  unfold host24
  rw [hnet, if_neg (net24Text_ne_empty a b c)]
  rfl

theorem address16_net (hnet : primarySubnet24 n = net24Text a b c) :
    address16 cfg n = if cfg.isExpanded (cidr24 a b c) then "" else cidr16 a b := by
  unfold address16
  rw [host24_net hnet, hnet]
  by_cases hexp : cfg.isExpanded (cidr24 a b c) = true
  · rw [if_pos (.inr hexp), if_pos hexp]
  · rw [if_neg (not_or.mpr ⟨net24Text_ne_empty a b c, hexp⟩), if_neg hexp]
    unfold above24
    rw [beforeLastDot_net24]
    rfl

/-- Where the first level leaves a host of the /24: by itself, or in the /24's supernode or tail. -/
structure Standing (s : Folding) (n : Node) (a b c : Nat) (k : Node) : Prop where
  kept : k ∈ s.kept
  root : s.rootOf n.ip = k.ip
  cases : k = n ∧ s.hostToSuper.lookup n.ip = none
    ∨ s.hostToSuper.lookup n.ip = some k.ip
      ∧ (k.ip = cidr24 a b c ∨ k.ip = residualSuperID (cidr24 a b c))

variable (hc : ClearNames cfg isGroup raw)

include hc

/-- A host the first level folds is mapped to its /24, under a name no host has. -/
theorem firstLevel_named (hn : n ∈ survivors cfg raw) {d : String}
    (hl : (firstLevel go cfg isGroup raw).hostToSuper.lookup n.ip = some d) :
    isGroup n = false ∧ (d = host24 n ∨ d = residualSuperID (host24 n))
      ∧ d ∉ (survivors cfg raw).map Node.ip
      ∧ (firstLevel go cfg isGroup raw).hostToSuper.lookup d = none := by
  obtain ⟨content, hp⟩ := partition_firstLevel go hc
  obtain ⟨fs, h⟩ := exists_firstFolds go hc
  rcases h.named n.ip d hl with ⟨f, hf, hin, rfl⟩ | hold
  · have hfold := h.folds f hf
    obtain ⟨n', hn', he⟩ := List.mem_map.mp hin
    obtain ⟨hk', hgrp, hcidr, -⟩ := mem_subnetNodes.mp (hfold.nodes n' hn')
    obtain rfl := List.inj_on_of_nodup_map hc.nodup hk' hn he
    have hsuper : f.superNode ∈ (firstLevel go cfg isGroup raw).kept := by
      rw [h.kept]
      exact List.mem_append_left _ (List.mem_map_of_mem hf)
    exact ⟨hgrp, hcidr ▸ hfold.name, hc.first f.cidr f.superID hfold.superID,
      hp.roots f.superNode hsuper⟩
  · exact absurd hold nofun

variable (go) in
theorem firstLevel_standing (hn : n ∈ survivors cfg raw)
    (hnet : primarySubnet24 n = net24Text a b c) :
    ∃ k, Standing (firstLevel go cfg isGroup raw) n a b c k := by
  obtain ⟨content, hp⟩ := partition_firstLevel go hc
  obtain ⟨k, hk, hroot⟩ := hp.exists_root hn
  refine ⟨k, hk, hroot, ?_⟩
  unfold Folding.rootOf grandparent at hroot
  cases hl : (firstLevel go cfg isGroup raw).hostToSuper.lookup n.ip with
  | none =>
    rw [hl] at hroot
    have he : n.ip = k.ip := hroot
    have hkh : k ∈ survivors cfg raw := hp.host_of_rank hk (he ▸ superRank_host hn)
    exact .inl ⟨List.inj_on_of_nodup_map hc.nodup hkh hn he.symm, rfl⟩
  | some d =>
    obtain ⟨-, hname, -, hnone⟩ := firstLevel_named hc hn hl
    rw [hl, Option.map_some, hnone] at hroot
    have he : d = k.ip := hroot
    rw [host24_net hnet, he] at hname
    exact .inr ⟨by rw [he], hname⟩

/-- A node of the /24 that may be folded stands for one of its hosts. -/
theorem exists_standing (hk : k ∈ (firstLevel go cfg isGroup raw).kept) (hgrp : isGroup k = false)
    (hof : k ∈ survivors cfg raw ∧ primarySubnet24 k = net24Text a b c
      ∨ k.ip = cidr24 a b c ∧ k ∉ survivors cfg raw) :
    ∃ n ∈ survivors cfg raw, isGroup n = false ∧ primarySubnet24 n = net24Text a b c
      ∧ Standing (firstLevel go cfg isGroup raw) n a b c k := by
  obtain ⟨content, hp⟩ := partition_firstLevel go hc
  have hroot : (firstLevel go cfg isGroup raw).rootOf k.ip = k.ip := by
    unfold Folding.rootOf grandparent
    rw [hp.roots k hk]
    rfl
  rcases hof with ⟨hhost, hnet⟩ | ⟨hname, hsuper⟩
  · exact ⟨k, hhost, hgrp, hnet, hk, hroot, .inl ⟨rfl, hp.roots k hk⟩⟩
  · obtain ⟨n, hn, hhost⟩ := hp.content_ne_nil hk
    have hrootn := hp.rootOf_content hk hn
    unfold Folding.rootOf grandparent at hrootn
    cases hl : (firstLevel go cfg isGroup raw).hostToSuper.lookup n.ip with
    | none =>
      rw [hl] at hrootn
      have hip : n.ip = k.ip := hrootn
      exact absurd (hp.host_of_rank hk (hip ▸ superRank_host hhost)) hsuper
    | some d =>
      obtain ⟨hgrpn, hd, -, hnone⟩ := firstLevel_named hc hhost hl
      rw [hl, Option.map_some, hnone] at hrootn
      have hip : d = k.ip := hrootn
      rw [hip, hname] at hd
      -- a subnet's name tells its /24
      have hne : host24 n ≠ "" := by
        intro h0
        rw [h0] at hd
        rcases hd with hd | hd
        · exact cidr24_ne_empty a b c hd
        · exact (proper_cidr24 a b c).ne_tail hd
      have hcidr := (host24_ne_empty hne).2
      have hnet : primarySubnet24 n = net24Text a b c := by
        rcases hd with hd | hd
        · exact cidr24_inj (hcidr.symm.trans hd.symm)
        · exact absurd hd (proper_cidr24 a b c).ne_tail
      exact ⟨n, hhost, hgrpn, hnet, hk, hp.rootOf_content hk hn, .inr ⟨hip ▸ hl, .inl hname⟩⟩

/-- The second level asks what stands for a host for the host's /16. -/
theorem Standing.asks16 (hn : n ∈ survivors cfg raw) (hnet : primarySubnet24 n = net24Text a b c)
    (h : Standing (firstLevel go cfg isGroup raw) n a b c k) :
    cidr16Of cfg (firstLevel go cfg isGroup raw) k = address16 cfg n := by
  obtain ⟨content, hp⟩ := partition_firstLevel go hc
  rcases h.cases with ⟨rfl, -⟩ | ⟨hl, hname⟩
  · exact cidr16Of_host (hp.host_not_super hn)
  · have hne : host24 n ≠ "" := by
      rw [host24_net hnet]
      exact cidr24_ne_empty a b c
    refine cidr16Of_super (hp.isSuper_of_rank h.kept ?_) hne (host24_net hnet ▸ hname)
    rw [superRank_name (firstLevel_named hc hn hl).2.2.1, (proper_cidr24 a b c).name_rank hname]
    exact Nat.one_pos

end First

/-! ## After the second level -/

section Second

variable {go : Runtime} {cfg : ViewConfig} {isGroup : Node → Bool} {raw : RawSnapshot}
  {n k : Node} {a b c : Nat} (hc : ClearNames cfg isGroup raw)

include hc

variable (go) in
theorem exists_secondFolds (hfolds : Folds16 cfg isGroup raw) : ∃ fs, LevelFolds cfg isGroup
    (cidr16Of cfg (firstLevel go cfg isGroup raw)) (firstLevel go cfg isGroup raw)
      (secondLevel go cfg isGroup raw) fs := by
  obtain ⟨content, hp⟩ := partition_firstLevel go hc
  obtain ⟨fs, h, -⟩ := exists_levelFolds go (fits_16 hc hfolds hp) hp.nodup hp.roots
  have hsecond : secondLevel go cfg isGroup raw = collapseLevel go cfg isGroup
      (cidr16Of cfg (firstLevel go cfg isGroup raw)) (firstLevel go cfg isGroup raw) :=
    if_pos ((folds16_iff go hc).mpr hfolds)
  exact ⟨fs, hsecond ▸ h⟩

/-- What the second level maps it has folded, into the node's /16. -/
theorem secondLevel_fold (hk : k ∈ (firstLevel go cfg isGroup raw).kept) {d : String}
    (hd : (secondLevel go cfg isGroup raw).hostToSuper.lookup k.ip = some d) :
    Folds16 cfg isGroup raw ∧ ∃ fs, LevelFolds cfg isGroup
      (cidr16Of cfg (firstLevel go cfg isGroup raw)) (firstLevel go cfg isGroup raw)
        (secondLevel go cfg isGroup raw) fs
      ∧ ∃ f ∈ fs, k ∈ f.nodes ∧ d = f.superID := by
  obtain ⟨content, hp⟩ := partition_firstLevel go hc
  have hroot := hp.roots k hk
  by_cases hfolds : Folds16 cfg isGroup raw
  · obtain ⟨fs, h⟩ := exists_secondFolds go hc hfolds
    refine ⟨hfolds, fs, h, ?_⟩
    rcases h.named k.ip d hd with ⟨f, hf, hin, rfl⟩ | hold
    · obtain ⟨k', hk', he⟩ := List.mem_map.mp hin
      have hkept' := (mem_subnetNodes.mp ((h.folds f hf).nodes k' hk')).1
      obtain rfl := List.inj_on_of_nodup_map hp.nodup hkept' hk he
      exact ⟨f, hf, hk', rfl⟩
    · rw [hroot] at hold
      exact absurd hold nofun
  · have hsecond : secondLevel go cfg isGroup raw = firstLevel go cfg isGroup raw :=
      if_neg fun h => hfolds ((folds16_iff go hc).mp h)
    rw [hsecond, hroot] at hd
    exact absurd hd nofun

/-- What folds it folds the host's /16. -/
theorem Standing.fold_cidr (hn : n ∈ survivors cfg raw) (hnet : primarySubnet24 n = net24Text a b c)
    (h : Standing (firstLevel go cfg isGroup raw) n a b c k) {fs : List Fold}
    (hfs : LevelFolds cfg isGroup (cidr16Of cfg (firstLevel go cfg isGroup raw))
      (firstLevel go cfg isGroup raw) (secondLevel go cfg isGroup raw) fs)
    {f : Fold} (hf : f ∈ fs) (hk : k ∈ f.nodes) : f.cidr = cidr16 a b := by
  obtain ⟨-, -, hcidr, hne⟩ := mem_subnetNodes.mp ((hfs.folds f hf).nodes k hk)
  rw [h.asks16 hc hn hnet, address16_net hnet] at hcidr
  split at hcidr
  · exact absurd hcidr.symm hne
  · exact hcidr.symm

/-- It is mapped to the /16 or its tail, under a name no host has, and that is the end. -/
theorem Standing.second (hn : n ∈ survivors cfg raw) (hnet : primarySubnet24 n = net24Text a b c)
    (h : Standing (firstLevel go cfg isGroup raw) n a b c k) {d : String}
    (hd : (secondLevel go cfg isGroup raw).hostToSuper.lookup k.ip = some d) :
    (d = cidr16 a b ∨ d = residualSuperID (cidr16 a b)) ∧ d ∉ (survivors cfg raw).map Node.ip
      ∧ (secondLevel go cfg isGroup raw).hostToSuper.lookup d = none := by
  obtain ⟨content₁, hp₁⟩ := partition_firstLevel go hc
  obtain ⟨content, hp⟩ := partition_secondLevel go hc
  obtain ⟨hfolds, fs, hfs, f, hf, hkf, rfl⟩ := secondLevel_fold hc h.kept hd
  have hfold := hfs.folds f hf
  have hcidr := h.fold_cidr hc hn hnet hfs hf hkf
  have hsuper : f.superNode ∈ (secondLevel go cfg isGroup raw).kept := by
    rw [hfs.kept]
    exact List.mem_append_left _ (List.mem_map_of_mem hf)
  exact ⟨hcidr ▸ hfold.name, (fits_16 hc hfolds hp₁).clear f.cidr f.superID hfold.superID,
    hp.roots f.superNode hsuper⟩

/-- The host's chain ends where that of what stands for it does. -/
theorem Standing.root_second (hn : n ∈ survivors cfg raw)
    (hnet : primarySubnet24 n = net24Text a b c)
    (h : Standing (firstLevel go cfg isGroup raw) n a b c k) :
    (secondLevel go cfg isGroup raw).rootOf n.ip
      = ((secondLevel go cfg isGroup raw).hostToSuper.lookup k.ip).getD k.ip := by
  obtain ⟨content₁, hp₁⟩ := partition_firstLevel go hc
  rcases h.cases with ⟨rfl, -⟩ | ⟨hl, -⟩
  · unfold Folding.rootOf grandparent
    cases hd : (secondLevel go cfg isGroup raw).hostToSuper.lookup k.ip with
    | none => rfl
    | some d =>
      rw [Option.map_some, (h.second hc hn hnet hd).2.2]
      rfl
  · have hkeep : (secondLevel go cfg isGroup raw).hostToSuper.lookup n.ip = some k.ip := by
      by_cases hfolds : Folds16 cfg isGroup raw
      · obtain ⟨fs, hfs⟩ := exists_secondFolds go hc hfolds
        obtain ⟨d, hd⟩ := Option.isSome_iff_exists.mp
          ((hfs.mapped n.ip).mpr (.inr (Option.isSome_of_eq_some hl)))
        rcases hfs.named n.ip d hd with ⟨f, hf, hin, -⟩ | hold
        · -- a mapped host is no node of the level any more
          obtain ⟨k', hk', he⟩ := List.mem_map.mp hin
          have hnone := hp₁.roots k' (mem_subnetNodes.mp ((hfs.folds f hf).nodes k' hk')).1
          rw [he, hl] at hnone
          exact absurd hnone nofun
        · rw [hd, ← hold, hl]
      · have hsecond : secondLevel go cfg isGroup raw = firstLevel go cfg isGroup raw :=
          if_neg fun h => hfolds ((folds16_iff go hc).mp h)
        rw [hsecond, hl]
    unfold Folding.rootOf grandparent
    rw [hkeep]
    rfl

end Second

end Etherchimp
