import Etherchimp.Proof.Standing
import Etherchimp.Proof.ViewHosts

/-!
# A focused subnet is shown

The view focused on a subnet keeps the nodes that belong to it by name. A host of a
focused /16 always has such a node, whatever it was folded into. A host of a focused /24
has one unless the second level folded it, or the /24's supernode, into the /16: that
supernode does not belong to the /24, and the view loses the host. Whether the second
level may do so can be told from the hosts.
-/

namespace Etherchimp

open Chains Grouping

/-! ## Focus -/

/-- A subnet the view can be focused on. -/
inductive Focus where
  | net24 (a b c : Nat)
  | net16 (a b : Nat)

namespace Focus

def cidr : Focus → String
  | net24 a b c => cidr24 a b c
  | net16 a b => cidr16 a b

/-- The node's address lies in the subnet. -/
def Holds : Focus → Node → Prop
  | net24 a b c, n => primarySubnet24 n = net24Text a b c
  | net16 a b, n => ∃ c, primarySubnet24 n = net24Text a b c

/--
The second level can take a node of the focused /24 into the /16: it finds one there, a
host or the supernode of all, and folds the /16, or may find as many nodes at least as
busy as an opened /16 has room for.
-/
def FoldsAway (cfg : ViewConfig) (isGroup : Node → Bool) (raw : RawSnapshot)
    (vs : Option ViewState) : Focus → Prop
  | net24 a b c =>
      let found := entries16 cfg isGroup raw (cidr16 a b)
      aggActive cfg vs (survivors cfg raw).length = true ∧ Folds16 cfg isGroup raw
        ∧ cfg.isFullExpand (cidr16 a b) = false
        ∧ ∃ n ∈ found,
          (n.ip = cidr24 a b c ∨ n.ip ∈ (hosts24 cfg isGroup raw (cidr24 a b c)).map Node.ip)
          ∧ if cfg.isExpanded (cidr16 a b) then cfg.budget < (found.filter fun k =>
              traffic cfg isGroup raw n ≤ traffic cfg isGroup raw k).length
            else minHostsToCollapse ≤ found.length
  | net16 _ _ => False

instance (cfg : ViewConfig) (isGroup : Node → Bool) (raw : RawSnapshot) (vs : Option ViewState)
    (focus : Focus) : Decidable (focus.FoldsAway cfg isGroup raw vs) :=
  match focus with
  | net24 _ _ _ => inferInstanceAs (Decidable (_ ∧ _))
  | net16 _ _ => inferInstanceAs (Decidable False)

theorem baseCIDR_cidr (focus : Focus) : baseCIDR focus.cidr = focus.cidr := by
  cases focus with
  | net24 a b c => exact (proper_cidr24 a b c).base
  | net16 a b => exact (proper_cidr16 a b).base

theorem cidr_ne_empty (focus : Focus) : focus.cidr ≠ "" := by
  cases focus with
  | net24 a b c => exact cidr24_ne_empty a b c
  | net16 a b =>
    intro h
    have hsuf := hasSuffix_cidr16 a b
    rw [show cidr16 a b = "" from h] at hsuf
    exact absurd hsuf (by decide)

/-- A host of the subnet belongs to it. -/
theorem Holds.belongs {focus : Focus} {n : Node} {isSuper : String → Bool}
    (hplain : '/' ∉ n.ip.toList) (hsup : isSuper n.ip = false) (h : focus.Holds n) :
    nodeBelongsToCIDR n focus.cidr isSuper = true := by
  cases focus with
  | net24 a b c => exact (belongs_host24 hplain hsup).mpr h
  | net16 a b =>
    obtain ⟨c, hc⟩ := h
    exact belongs_host16 hsup hc

/-- The /24 of a host of the subnet. -/
theorem Holds.net {focus : Focus} {n : Node} (h : focus.Holds n) :
    ∃ a b c, primarySubnet24 n = net24Text a b c
      ∧ (focus = net24 a b c ∨ focus = net16 a b) := by
  cases focus with
  | net24 a b c => exact ⟨a, b, c, h, .inl rfl⟩
  | net16 a b =>
    obtain ⟨c, hc⟩ := h
    exact ⟨a, b, c, hc, .inr rfl⟩

end Focus

/-! ## What the second level takes of a /24 -/

section Taken

variable {go : Runtime} {cfg : ViewConfig} {isGroup : Node → Bool} {raw : RawSnapshot}
  {vs : Option ViewState} {n k : Node} {a b c : Nat}

/-- In one run the second level folds what stands for a host of the /24. -/
def Takes (go : Runtime) (cfg : ViewConfig) (isGroup : Node → Bool) (raw : RawSnapshot)
    (a b c : Nat) : Prop :=
  ∃ n ∈ survivors cfg raw, isGroup n = false ∧ primarySubnet24 n = net24Text a b c
    ∧ ∃ k, Standing (firstLevel go cfg isGroup raw) n a b c k
      ∧ ((secondLevel go cfg isGroup raw).hostToSuper.lookup k.ip).isSome = true

variable (hc : ClearNames cfg isGroup raw) (hplain : ∀ n ∈ survivors cfg raw, '/' ∉ n.ip.toList)

include hc

/--
**What stands for a host belongs to the focus**, unless it stands for the host's whole
/16 and the focus is on the /24.
-/
theorem Standing.belongs_iff (hplain : '/' ∉ n.ip.toList) (hn : n ∈ survivors cfg raw)
    (hnet : primarySubnet24 n = net24Text a b c)
    (h : Standing (firstLevel go cfg isGroup raw) n a b c k) {focus : Focus}
    (hfocus : focus = .net24 a b c ∨ focus = .net16 a b) {root : Node}
    (hroot : root ∈ (secondLevel go cfg isGroup raw).kept)
    (hid : root.ip = (secondLevel go cfg isGroup raw).rootOf n.ip) :
    nodeBelongsToCIDR root focus.cidr (secondLevel go cfg isGroup raw).isSuper = true
      ↔ focus = .net24 a b c → (secondLevel go cfg isGroup raw).hostToSuper.lookup k.ip = none := by
  obtain ⟨content, hp⟩ := partition_secondLevel go hc
  rw [h.root_second hc hn hnet] at hid
  cases hl : (secondLevel go cfg isGroup raw).hostToSuper.lookup k.ip with
  | none =>
    rw [hl] at hid
    have hid : root.ip = k.ip := hid
    refine iff_of_true ?_ fun _ => rfl
    rcases h.cases with ⟨rfl, -⟩ | ⟨hfirst, hname⟩
    · -- the host itself
      have hrank : superRank (survivors cfg raw) root.ip = 0 := hid ▸ superRank_host hn
      have hsame : root = k :=
        List.inj_on_of_nodup_map hc.nodup (hp.host_of_rank hroot hrank) hn hid
      subst hsame
      refine Focus.Holds.belongs hplain (hp.host_not_super hn) ?_
      rcases hfocus with rfl | rfl
      · exact hnet
      · exact ⟨c, hnet⟩
    · -- the /24's supernode or its tail
      have hnot := (firstLevel_named hc hn hfirst).2.2.1
      rw [← hid] at hname hnot
      rcases hfocus with rfl | rfl
      · exact belongs_named (proper_cidr24 a b c) hname
      · refine belongs_super16 (hp.isSuper_of_rank hroot ?_) hname
        rw [superRank_name hnot, (proper_cidr24 a b c).name_rank hname]
        exact Nat.one_pos
  | some d =>
    rw [hl] at hid
    have hid : root.ip = d := hid
    obtain ⟨hname, hnot, -⟩ := h.second hc hn hnet hl
    rw [← hid] at hname hnot
    rcases hfocus with rfl | rfl
    · -- the /16's supernode has no name of the /24
      refine iff_of_false (fun hb => ?_) fun he => absurd (he rfl) nofun
      have hrank := (proper_cidr16 a b).name_rank hname
      have hsup : (secondLevel go cfg isGroup raw).isSuper root.ip = true := by
        refine hp.isSuper_of_rank hroot ?_
        rw [superRank_name hnot, hrank]
        exact Nat.two_pos
      rw [(proper_cidr24 a b c).name_rank ((belongs_super24 hsup).mp hb)] at hrank
      exact absurd hrank (by decide)
    · exact iff_of_true (belongs_named (proper_cidr16 a b) hname) nofun

/-- Counted at the second level, or from the hosts: the nodes at least as busy. -/
theorem length_atLeast {fs : List Fold} (h : FirstFolds go cfg isGroup raw fs) {p : String}
    (hk : k ∈ entries16 cfg isGroup raw p) :
    ((subnetNodes isGroup (cidr16Of cfg (firstLevel go cfg isGroup raw))
        (firstLevel go cfg isGroup raw).kept p).filter fun m =>
          effective cfg (firstLevel go cfg isGroup raw).visible k
            ≤ effective cfg (firstLevel go cfg isGroup raw).visible m).length
      = ((entries16 cfg isGroup raw p).filter fun m =>
          traffic cfg isGroup raw k ≤ traffic cfg isGroup raw m).length := by
  rw [((h.entries_perm hc p).filter _).length_eq]
  refine congrArg List.length (List.filter_congr fun m hm => ?_)
  rw [h.traffic hc hk, h.traffic hc hm]

/-- **What one run takes can be told from the hosts.** -/
theorem Takes.foldsAway (h : Takes go cfg isGroup raw a b c)
    (hagg : aggActive cfg vs (survivors cfg raw).length = true) :
    (Focus.net24 a b c).FoldsAway cfg isGroup raw vs := by
  obtain ⟨n, hn, hgrp, hnet, k, hstand, hsome⟩ := h
  obtain ⟨d, hd⟩ := Option.isSome_iff_exists.mp hsome
  obtain ⟨hfolds, fs, hfs, f, hf, hkf, rfl⟩ := secondLevel_fold hc hstand.kept hd
  obtain ⟨fs₁, h₁⟩ := exists_firstFolds go hc
  have hcidr := hstand.fold_cidr hc hn hnet hfs hf hkf
  have hfold := hfs.folds f hf
  rw [hcidr] at hfold
  have hfound : k ∈ entries16 cfg isGroup raw (cidr16 a b) :=
    ((h₁.entries_perm hc _).mem_iff).mp (hfold.nodes k hkf)
  have hmembers := (h₁.entries_perm hc (cidr16 a b)).length_eq
  obtain ⟨hopen, hwhole⟩ := superIDOf_some hfold.superID
  refine ⟨hagg, hfolds, hopen, k, hfound, ?_, ?_⟩
  · rcases hstand.cases with ⟨rfl, -⟩ | ⟨hl, hname⟩
    · refine .inr (List.mem_map_of_mem (mem_subnetNodes.mpr ⟨hn, hgrp, host24_net hnet, ?_⟩))
      exact cidr24_ne_empty a b c
    · -- a tail is no node the second level finds
      refine .inl (hname.resolve_right fun htail => ?_)
      rcases mem_entries16.mp hfound with ⟨hhost, -⟩ | ⟨m, hm, -, hsuper, -⟩
      · exact (firstLevel_named hc hn hl).2.2.1 (List.mem_map_of_mem (mem_subnetNodes.mp hhost).1)
      · obtain ⟨-, -, h16, hne⟩ := mem_subnetNodes.mp hm
        have hip : host24 m = k.ip := congrArg Node.ip hsuper
        rw [htail, (host24_ne_empty (address16_ne_empty (h16.symm ▸ hne)).1).2] at hip
        exact (proper_24 _).ne_tail hip
  · by_cases hexp : cfg.isExpanded (cidr16 a b) = true
    · rw [if_pos hexp]
      have hbehind := hfs.behind f hf (hcidr.symm ▸ hexp) k hkf
      rw [hcidr, length_atLeast hc h₁ hfound] at hbehind
      exact hbehind
    · rw [if_neg hexp, ← hmembers]
      exact hwhole (Bool.eq_false_iff.mpr hexp)

include hplain

/-- What the second level finds of a /24 is not opened, and is a host or the supernode. -/
theorem entry_cases {p : String} (hk : k ∈ entries16 cfg isGroup raw p)
    (hof : k.ip = cidr24 a b c ∨ k.ip ∈ (hosts24 cfg isGroup raw (cidr24 a b c)).map Node.ip) :
    isGroup k = false ∧ cfg.isExpanded (cidr24 a b c) = false
      ∧ (k ∈ survivors cfg raw ∧ primarySubnet24 k = net24Text a b c
        ∨ k.ip = cidr24 a b c ∧ k ∉ survivors cfg raw) := by
  have hslash : '/' ∈ (cidr24 a b c).toList := by
    by_contra hnot
    have hrank := (proper_cidr24 a b c).rank
    rw [nameRank_plain hnot] at hrank
    exact absurd hrank (by decide)
  rcases mem_entries16.mp hk with ⟨hhost, -⟩ | ⟨m, hm, hcrowd, rfl, hgrp⟩
  · obtain ⟨hsurv, hgrp, h16, hne⟩ := mem_subnetNodes.mp hhost
    obtain ⟨hne, hexp⟩ := address16_ne_empty (h16.symm ▸ hne)
    rcases hof with hname | hmem
    · exact absurd (hname ▸ hslash) (hplain k hsurv)
    · obtain ⟨k', hk', he⟩ := List.mem_map.mp hmem
      obtain ⟨hsurv', -, h24, -⟩ := mem_subnetNodes.mp hk'
      obtain rfl := List.inj_on_of_nodup_map hc.nodup hsurv' hsurv he
      refine ⟨hgrp, h24 ▸ hexp, .inl ⟨hsurv, ?_⟩⟩
      exact cidr24_inj ((host24_ne_empty hne).2.symm.trans h24)
  · have hip : (supernode24 cfg isGroup raw (host24 m)).ip = host24 m := rfl
    have hnot : supernode24 cfg isGroup raw (host24 m) ∉ survivors cfg raw := fun hsurv =>
      crowded_not_host hc hcrowd hsurv hip
    rcases hof with hname | hmem
    · exact ⟨hgrp, hname ▸ hcrowd.1, .inr ⟨hname, hnot⟩⟩
    · obtain ⟨k', hk', he⟩ := List.mem_map.mp hmem
      exact absurd (he.trans hip) (crowded_not_host hc hcrowd (mem_subnetNodes.mp hk').1)

/-- A node of the /24 that one run folds is taken. -/
theorem takes_of_mapped {p : String} (hk : k ∈ entries16 cfg isGroup raw p)
    (hof : k.ip = cidr24 a b c ∨ k.ip ∈ (hosts24 cfg isGroup raw (cidr24 a b c)).map Node.ip)
    (hsome : ((secondLevel go cfg isGroup raw).hostToSuper.lookup k.ip).isSome = true) :
    Takes go cfg isGroup raw a b c := by
  obtain ⟨fs, h⟩ := exists_firstFolds go hc
  obtain ⟨hgrp, -, hcases⟩ := entry_cases hc hplain hk hof
  have hkept := (mem_subnetNodes.mp ((h.entries_perm hc p).mem_iff.mpr hk)).1
  obtain ⟨n, hn, hgrpn, hnet, hstand⟩ := exists_standing hc hkept hgrp hcases
  exact ⟨n, hn, hgrpn, hnet, k, hstand, hsome⟩

/-- **What may be taken is taken in some run**, if need be one that sorts against it. -/
theorem Focus.FoldsAway.exists_takes (h : (Focus.net24 a b c).FoldsAway cfg isGroup raw vs) :
    ∃ go, Takes go cfg isGroup raw a b c := by
  obtain ⟨-, hfolds, hfull, k, hk, hof, hcond⟩ := h
  by_cases hexp : cfg.isExpanded (cidr16 a b) = true
  · rw [if_pos hexp] at hcond
    let go := Runtime.delaying fun m : Member => decide (m.1.ip = k.ip)
    obtain ⟨content, hp⟩ := partition_firstLevel go hc
    obtain ⟨fs, h⟩ := exists_firstFolds go hc
    rw [← length_atLeast hc h hk] at hcond
    have hmapped := mapped_last (fits_16 hc hfolds hp) hp.nodup hp.roots hexp hfull
      ((h.entries_perm hc _).mem_iff.mpr hk) hcond
    have hsecond : secondLevel go cfg isGroup raw = collapseLevel go cfg isGroup
        (cidr16Of cfg (firstLevel go cfg isGroup raw)) (firstLevel go cfg isGroup raw) :=
      if_pos ((folds16_iff go hc).mpr hfolds)
    exact ⟨go, takes_of_mapped hc hplain hk hof (hsecond ▸ hmapped)⟩
  · rw [if_neg hexp] at hcond
    have hexp := Bool.eq_false_iff.mpr hexp
    obtain ⟨fs₁, h₁⟩ := exists_firstFolds Runtime.stable hc
    obtain ⟨fs, hfs⟩ := exists_secondFolds Runtime.stable hc hfolds
    have hperm := h₁.entries_perm hc (cidr16 a b)
    have hid : superIDOf cfg (cidr16 a b) (subnetNodes isGroup
        (cidr16Of cfg (firstLevel Runtime.stable cfg isGroup raw))
        (firstLevel Runtime.stable cfg isGroup raw).kept (cidr16 a b)).length
          = some (cidr16 a b) := by
      unfold superIDOf
      rw [hperm.length_eq, hfull, hexp, if_neg Bool.false_ne_true, if_neg Bool.false_ne_true,
        if_neg (Nat.not_lt.mpr hcond)]
    obtain ⟨f, hf, hcidr⟩ := List.mem_map.mp ((hfs.mem_iff _).mpr (Option.isSome_of_eq_some hid))
    have hnodes := (hfs.whole f hf (hcidr.symm ▸ hexp)).nodes
    rw [nodes_unplaced, hcidr] at hnodes
    have hin : k ∈ f.nodes := hnodes.mem_iff.mpr (hperm.mem_iff.mpr hk)
    exact ⟨Runtime.stable, takes_of_mapped hc hplain hk hof
      ((hfs.mapped k.ip).mpr (.inl ⟨f, hf, List.mem_map_of_mem hin⟩))⟩

omit hplain in
/-- What the first level leaves of a /24 that is not opened it leaves in every run. -/
theorem firstLevel_kept (go₀ : Runtime) (hexp : cfg.isExpanded (cidr24 a b c) = false)
    (hk : k ∈ (firstLevel go cfg isGroup raw).kept)
    (hof : k ∈ survivors cfg raw ∧ primarySubnet24 k = net24Text a b c
      ∨ k ∉ survivors cfg raw ∧ (k.ip = cidr24 a b c ∨ k.ip = residualSuperID (cidr24 a b c))) :
    k ∈ (firstLevel go₀ cfg isGroup raw).kept
      ∧ (k ∈ survivors cfg raw ∧ primarySubnet24 k = net24Text a b c
        ∨ k.ip = cidr24 a b c ∧ k ∉ survivors cfg raw) := by
  obtain ⟨fs, h⟩ := exists_firstFolds go hc
  obtain ⟨fs₀, h₀⟩ := exists_firstFolds go₀ hc
  rw [h.kept] at hk
  rw [h₀.kept]
  rcases List.mem_append.mp hk with hsuper | hloose
  · obtain ⟨f, hf, rfl⟩ := List.mem_map.mp hsuper
    have hfold := h.folds f hf
    have hnot : f.superNode ∉ survivors cfg raw := fun hin =>
      hc.first f.cidr f.superID hfold.superID (List.mem_map_of_mem (f := Node.ip) hin)
    have hcidr : f.cidr = cidr24 a b c := by
      by_contra hne
      have hname := (hof.resolve_left fun hin => hnot hin.1).2
      exact names_ne ((h.names (fits_24 hc)).1 f hf) (proper_cidr24 a b c) hne hfold.name hname rfl
    have hsame := h.whole f hf (hcidr ▸ hexp)
    have hcrowd : Crowded cfg isGroup raw (cidr24 a b c) :=
      crowded_of_superIDOf hexp (hcidr ▸ hfold.superID)
    obtain ⟨f₀, hf₀, -, -, hnode, -⟩ := h₀.crowded hcrowd
    have hsuper : f.superNode = f₀.superNode := by
      rw [hnode, hsame.superNode, hcidr]
      rfl
    refine ⟨List.mem_append_left _ (hsuper ▸ List.mem_map_of_mem hf₀), .inr ⟨?_, hnot⟩⟩
    exact hsame.superID.trans hcidr
  · obtain ⟨hhost, hnone⟩ := List.mem_filter.mp hloose
    have hnet := (hof.resolve_right fun hno => hno.1 hhost).2
    refine ⟨List.mem_append_right _ (List.mem_filter.mpr ⟨hhost, ?_⟩), .inl ⟨hhost, hnet⟩⟩
    rw [Option.isNone_iff_eq_none, ← Option.not_isSome_iff_eq_none] at hnone ⊢
    intro hsome
    cases hgrp : isGroup k with
    | true =>
      obtain ⟨f, hf, hin⟩ := (h₀.folded k.ip).mp hsome
      obtain ⟨n, hn, he⟩ := List.mem_map.mp hin
      obtain ⟨hnk, hgrpn, -⟩ := mem_subnetNodes.mp ((h₀.folds f hf).nodes n hn)
      obtain rfl := List.inj_on_of_nodup_map hc.nodup hnk hhost he
      exact Bool.false_ne_true (hgrpn.symm.trans hgrp)
    | false =>
      have h24 := host24_net hnet
      have hmember : k ∈ hosts24 cfg isGroup raw (host24 k) :=
        mem_subnetNodes.mpr ⟨hhost, hgrp, rfl, h24 ▸ cidr24_ne_empty a b c⟩
      have hcrowd := (h₀.mapped_iff hmember hc.nodup (h24 ▸ hexp)).mp hsome
      exact hnone ((h.mapped_iff hmember hc.nodup (h24 ▸ hexp)).mpr hcrowd)

/-- What one run keeps of the /24 every run keeps that takes nothing of it. -/
theorem secondLevel_kept {go₀ : Runtime} (hfolds : Folds16 cfg isGroup raw)
    (hexp : cfg.isExpanded (cidr24 a b c) = false) (hnot : ¬ Takes go₀ cfg isGroup raw a b c)
    (hk : k ∈ (secondLevel go cfg isGroup raw).kept)
    (hb : nodeBelongsToCIDR k (cidr24 a b c) (secondLevel go cfg isGroup raw).isSuper = true) :
    k ∈ (secondLevel go₀ cfg isGroup raw).kept
      ∧ nodeBelongsToCIDR k (cidr24 a b c) (secondLevel go₀ cfg isGroup raw).isSuper = true := by
  obtain ⟨content₁, hp₁⟩ := partition_firstLevel go hc
  obtain ⟨content, hp⟩ := partition_secondLevel go hc
  obtain ⟨content₀, hp₀⟩ := partition_secondLevel go₀ hc
  obtain ⟨fs, hfs⟩ := exists_secondFolds go hc hfolds
  obtain ⟨fs₀, hfs₀⟩ := exists_secondFolds go₀ hc hfolds
  have hof : k ∈ survivors cfg raw ∧ primarySubnet24 k = net24Text a b c
      ∨ k ∉ survivors cfg raw ∧ (k.ip = cidr24 a b c ∨ k.ip = residualSuperID (cidr24 a b c)) := by
    by_cases hhost : k ∈ survivors cfg raw
    · exact .inl ⟨hhost, (belongs_host24 (hplain k hhost) (hp.host_not_super hhost)).mp hb⟩
    · refine .inr ⟨hhost, (belongs_super24 (hp.isSuper_of_rank hk ?_)).mp hb⟩
      exact Nat.pos_of_ne_zero fun h0 => hhost (hp.host_of_rank hk h0)
  -- the supernodes of a /16 are named like no node of the /24
  have hfirst : k ∈ (firstLevel go cfg isGroup raw).kept := by
    rw [hfs.kept] at hk
    rcases List.mem_append.mp hk with hsuper | hkept
    · obtain ⟨f, hf, rfl⟩ := List.mem_map.mp hsuper
      have hfold := hfs.folds f hf
      have hclear := (fits_16 hc hfolds hp₁).clear f.cidr f.superID hfold.superID
      have hname := (hof.resolve_left fun hin => hclear (List.mem_map_of_mem hin.1)).2
      have hrank := ((hfs.names (fits_16 hc hfolds hp₁)).1 f hf).name_rank hfold.name
      have hrank' := (proper_cidr24 a b c).name_rank hname
      rw [Fold.superNode_ip, hrank] at hrank'
      exact absurd hrank' (by decide)
    · exact (List.mem_filter.mp hkept).1
  obtain ⟨hkept₀, hcases⟩ := firstLevel_kept hc go₀ hexp hfirst hof
  constructor
  · rw [hfs₀.kept]
    refine List.mem_append_right _ (List.mem_filter.mpr ⟨hkept₀, ?_⟩)
    rw [Option.isNone_iff_eq_none]
    by_contra hne
    obtain ⟨d, hd⟩ := Option.ne_none_iff_exists'.mp hne
    obtain ⟨-, fs', hfs', f, hf, hin, -⟩ := secondLevel_fold hc hkept₀ hd
    have hgrp := (mem_subnetNodes.mp ((hfs'.folds f hf).nodes k hin)).2.1
    obtain ⟨n, hn, hgrpn, hnet, hstand⟩ := exists_standing hc hkept₀ hgrp hcases
    exact hnot ⟨n, hn, hgrpn, hnet, k, hstand, Option.isSome_of_eq_some hd⟩
  · rcases hcases with ⟨hhost, hnet⟩ | ⟨hname, -⟩
    · exact (belongs_host24 (hplain k hhost) (hp₀.host_not_super hhost)).mpr hnet
    · exact belongs_named (proper_cidr24 a b c) (.inl hname)

end Taken

/-! ## The focused view -/

section View

variable {F : Type} [FloatMath F] [RuneCase]

/-- Every host of the focused subnet is in the view, by itself or in its supernode. -/
def FocusShown (raw : RawSnapshot) (cfg : ViewConfig) (isGroup : Node → Bool) (focus : Focus)
    (view : ViewSnapshot F) : Prop :=
  ∀ n ∈ survivors cfg raw, isGroup n = false → focus.Holds n →
    (view.hostToSuper.lookup n.ip).getD n.ip ∈ view.nodes.map ViewNode.id

variable {go : Runtime} {raw : RawSnapshot} {cfg : ViewConfig} {input : ViewInput F} {focus : Focus}

omit [RuneCase] in
/-- Within the cap the view shows the isolated nodes. -/
theorem shownNodes_perm_isolate
    (hcap : (isolate cfg (input.folding go raw cfg)).length ≤ cfg.nodeCap) :
    (input.shownNodes go raw cfg).Perm (isolate cfg (input.folding go raw cfg)) := by
  unfold ViewInput.shownNodes selectNodes cutNodes
  rw [Runtime.length_sortSlice]
  simp only [if_pos hcap]
  exact go.sortSlice_perm _ _

omit [RuneCase] in
theorem mem_isolate {s : Folding} {k : Node} (hfocus : cfg.focusCIDR = focus.cidr) :
    k ∈ isolate cfg s ↔ k ∈ s.kept ∧ nodeBelongsToCIDR k focus.cidr s.isSuper = true := by
  unfold isolate
  rw [hfocus, if_pos focus.cidr_ne_empty, List.mem_filter, focus.baseCIDR_cidr]

/-- A host is shown when the node at the end of its chain belongs to the focus. -/
theorem shown_iff (hc : ClearNames cfg (isGroupNode input.overrides) raw)
    (hfocus : cfg.focusCIDR = focus.cidr)
    (hcap : (isolate cfg (input.folding go raw cfg)).length ≤ cfg.nodeCap) {n : Node}
    (hn : n ∈ survivors cfg raw) :
    ((buildView go raw cfg input).1.hostToSuper.lookup n.ip).getD n.ip
        ∈ (buildView go raw cfg input).1.nodes.map ViewNode.id
      ↔ ∃ root ∈ (input.folding go raw cfg).kept,
        nodeBelongsToCIDR root focus.cidr (input.folding go raw cfg).isSuper = true
          ∧ root.ip = ((input.folding go raw cfg).hostToSuper.lookup n.ip).getD n.ip := by
  obtain ⟨content, hrep⟩ : ∃ content, Represents (survivors cfg raw) (OpenedFully cfg)
      (input.folding go raw cfg) content := represents_foldedView input.state hc
  rw [view_lookup go raw cfg input hrep hn, buildView_ids,
    ((shownNodes_perm_isolate hcap).map Node.ip).mem_iff, List.mem_map]
  refine exists_congr fun root => ?_
  rw [mem_isolate hfocus, and_assoc]

omit [FloatMath F] [RuneCase] in
theorem folding_aggregated
    (hagg : aggActive cfg input.state (survivors cfg raw).length = true) :
    input.folding go raw cfg = { secondLevel go cfg (isGroupNode input.overrides) raw with
      hostToSuper :=
        flatten go (secondLevel go cfg (isGroupNode input.overrides) raw).hostToSuper } := by
  unfold ViewInput.folding foldedView
  simp only [hagg, if_true]
  rfl

/-- One run shows the focus, but for a /24 of which the second level takes something. -/
theorem focusShown_of_run (hc : ClearNames cfg (isGroupNode input.overrides) raw)
    (hslash : ∀ n ∈ survivors cfg raw, '/' ∉ n.ip.toList) (hfocus : cfg.focusCIDR = focus.cidr)
    (hcap : (isolate cfg (input.folding go raw cfg)).length ≤ cfg.nodeCap) :
    FocusShown raw cfg (isGroupNode input.overrides) focus (buildView go raw cfg input).1
      ↔ ¬ (aggActive cfg input.state (survivors cfg raw).length = true
        ∧ ∃ a b c, focus = .net24 a b c ∧ Takes go cfg (isGroupNode input.overrides) raw a b c) := by
  by_cases hagg : aggActive cfg input.state (survivors cfg raw).length = true
  · obtain ⟨content, hp⟩ := partition_secondLevel go hc
    have hlookup : ∀ id, ((input.folding go raw cfg).hostToSuper.lookup id).getD id
        = (secondLevel go cfg (isGroupNode input.overrides) raw).rootOf id := by
      intro id
      have hflat : (flatten go (secondLevel go cfg (isGroupNode input.overrides)
          raw).hostToSuper).lookup id = _ :=
        lookup_shortened (hp.ranked.twoHops (superRank_le _)) (go.rangeOf_perm _) id
      rw [folding_aggregated hagg]
      exact congrArg (·.getD id) hflat
    have hkept : (input.folding go raw cfg).kept
        = (secondLevel go cfg (isGroupNode input.overrides) raw).kept := by
      rw [folding_aggregated hagg]
    have hsuper : (input.folding go raw cfg).isSuper
        = (secondLevel go cfg (isGroupNode input.overrides) raw).isSuper := by
      rw [folding_aggregated hagg]
      rfl
    -- a host is shown when what stands for it is not taken
    have hhost : ∀ {n k : Node} {a b c : Nat}, n ∈ survivors cfg raw →
        primarySubnet24 n = net24Text a b c → focus = .net24 a b c ∨ focus = .net16 a b →
        Standing (firstLevel go cfg (isGroupNode input.overrides) raw) n a b c k →
        (((buildView go raw cfg input).1.hostToSuper.lookup n.ip).getD n.ip
            ∈ (buildView go raw cfg input).1.nodes.map ViewNode.id
          ↔ (focus = .net24 a b c →
            (secondLevel go cfg (isGroupNode input.overrides) raw).hostToSuper.lookup k.ip = none)) := by
      intro n k a b c hn hnet hfoc hstand
      rw [shown_iff hc hfocus hcap hn, hlookup, hkept, hsuper]
      constructor
      · rintro ⟨root, hroot, hbelongs, hid⟩
        exact (hstand.belongs_iff hc (hslash n hn) hn hnet hfoc hroot hid).mp hbelongs
      · intro hnone
        obtain ⟨root, hroot, hid⟩ := hp.exists_root hn
        exact ⟨root, hroot,
          (hstand.belongs_iff hc (hslash n hn) hn hnet hfoc hroot hid.symm).mpr hnone, hid.symm⟩
    constructor
    · rintro hshown ⟨-, a, b, c, rfl, n, hn, hgrp, hnet, k, hstand, hsome⟩
      have hnone := (hhost hn hnet (.inl rfl) hstand).mp (hshown n hn hgrp hnet) rfl
      rw [hnone] at hsome
      exact Bool.false_ne_true hsome
    · intro hnot n hn hgrp hholds
      obtain ⟨a, b, c, hnet, hfoc⟩ := hholds.net
      obtain ⟨k, hstand⟩ := firstLevel_standing go hc hn hnet
      refine (hhost hn hnet hfoc hstand).mpr fun he => Option.not_isSome_iff_eq_none.mp fun hsome => ?_
      exact hnot ⟨hagg, a, b, c, he, n, hn, hgrp, hnet, k, hstand, hsome⟩
  · have hfold : input.folding go raw cfg = unfolded cfg raw := by
      unfold ViewInput.folding foldedView
      simp only [if_neg hagg]
      rfl
    refine iff_of_true (fun n hn _ hholds => ?_) fun h => hagg h.1
    refine (shown_iff hc hfocus hcap hn).mpr ⟨n, ?_, ?_, ?_⟩
    · rw [hfold]
      exact hn
    · rw [hfold]
      exact hholds.belongs (hslash n hn) rfl
    · rw [hfold]
      rfl

omit [FloatMath F] [RuneCase] in
/-- A run that takes nothing of the focused /24 isolates as many nodes as any. -/
theorem length_isolate_le {go₀ : Runtime} {a b c : Nat}
    (hc : ClearNames cfg (isGroupNode input.overrides) raw)
    (hslash : ∀ n ∈ survivors cfg raw, '/' ∉ n.ip.toList) (hfocus : cfg.focusCIDR = cidr24 a b c)
    (h : (Focus.net24 a b c).FoldsAway cfg (isGroupNode input.overrides) raw input.state)
    (hnot : ¬ Takes go₀ cfg (isGroupNode input.overrides) raw a b c) :
    (isolate cfg (input.folding go raw cfg)).length
      ≤ (isolate cfg (input.folding go₀ raw cfg)).length := by
  obtain ⟨hagg, hfolds, -, k, hk, hof, -⟩ := h
  have hexp := (entry_cases hc hslash hk hof).2.1
  obtain ⟨content, hp⟩ := partition_secondLevel go hc
  have hfocus : cfg.focusCIDR = (Focus.net24 a b c).cidr := hfocus
  have hnd : (isolate cfg (input.folding go raw cfg)).Nodup := by
    have hkept : (input.folding go raw cfg).kept.Nodup := by
      rw [folding_aggregated hagg]
      exact List.Nodup.of_map _ hp.nodup
    unfold isolate
    split
    · exact hkept.filter _
    · exact hkept
  refine (List.subperm_of_subset hnd fun k hk => ?_).length_le
  rw [mem_isolate hfocus, folding_aggregated hagg] at hk ⊢
  exact secondLevel_kept hc hslash hfolds hexp hnot hk.1 hk.2

/--
**A focused subnet is shown** within the cap, whatever is filtered, folded and opened,
except for a /24 of which the second level can take something into the /16.
-/
theorem focusShown_iff (raw : RawSnapshot) (cfg : ViewConfig) (input : ViewInput F) (focus : Focus)
    (hids : (raw.nodes.map Node.ip).Nodup) (hslash : ∀ n ∈ raw.nodes, '/' ∉ n.ip.toList)
    (hfocus : cfg.focusCIDR = focus.cidr)
    (hcap : ∃ go, (isolate cfg (input.folding go raw cfg)).length ≤ cfg.nodeCap) :
    (∀ go, (isolate cfg (input.folding go raw cfg)).length ≤ cfg.nodeCap →
        FocusShown raw cfg (isGroupNode input.overrides) focus (buildView go raw cfg input).1)
      ↔ ¬ focus.FoldsAway cfg (isGroupNode input.overrides) raw input.state := by
  have hc := clearNames (isGroupNode input.overrides) raw cfg hids hslash
  have hslash : ∀ n ∈ survivors cfg raw, '/' ∉ n.ip.toList :=
    fun n hn => hslash n (List.mem_filter.mp hn).1
  constructor
  · intro hshown h
    cases focus with
    | net16 a b => exact h
    | net24 a b c =>
      have htakes : ∀ {go}, (isolate cfg (input.folding go raw cfg)).length ≤ cfg.nodeCap →
          ¬ Takes go cfg (isGroupNode input.overrides) raw a b c := fun {go} hcap htakes =>
        (focusShown_of_run hc hslash hfocus hcap).mp (hshown go hcap) ⟨h.1, a, b, c, rfl, htakes⟩
      -- the run that takes something is within the cap with the one that does not
      obtain ⟨go₀, hcap₀⟩ := hcap
      obtain ⟨go, hgo⟩ := h.exists_takes hc hslash
      exact htakes (Nat.le_trans (length_isolate_le hc hslash hfocus h (htakes hcap₀)) hcap₀) hgo
  · intro h go hcap
    refine (focusShown_of_run hc hslash hfocus hcap).mpr ?_
    rintro ⟨hagg, a, b, c, rfl, htakes⟩
    exact h (htakes.foldsAway hc hagg)

end View

/-! ## A /24 lost in its /16 -/

def quietHost (ip : String) : Node where
  ip := ip
  hostname := ""
  ips := [ip]
  packetCount := 7
  byteCount := 420
  lastSeen := 0
  isGroup := false

/-- Four hosts, each alone in its /24 of one /16. -/
def scatteredHosts : RawSnapshot where
  nodes := ["10.0.0.1", "10.0.1.1", "10.0.2.1", "10.0.3.1"].map quietHost
  edges := []

/-- Zoomed out, with the focus on one subnet. -/
def farFocus (focus : Focus) : ViewConfig := { zoomBand := "far", focusCIDR := focus.cidr }

/-- The four fold into the /16, and the view of one of their /24s is empty. -/
theorem focusShown_scattered :
    (scatteredHosts.nodes.map Node.ip).Nodup ∧ (∀ n ∈ scatteredHosts.nodes, '/' ∉ n.ip.toList) ∧
      (isolate (farFocus (.net24 10 0 1)) (({} : ViewInput Float).folding Runtime.stable
        scatteredHosts (farFocus (.net24 10 0 1)))).length ≤ (farFocus (.net24 10 0 1)).nodeCap ∧
      ¬ FocusShown scatteredHosts (farFocus (.net24 10 0 1)) (isGroupNode (∅ : OverrideStore Float))
        (.net24 10 0 1) (buildView Runtime.stable scatteredHosts (farFocus (.net24 10 0 1))
          ({} : ViewInput Float)).1 := by
  refine ⟨by decide, by decide, by decide +kernel, fun h => ?_⟩
  have hnet : primarySubnet24 (quietHost "10.0.1.1") = net24Text 10 0 1 := by decide +kernel
  have hshown := h (quietHost "10.0.1.1") (List.mem_of_getElem? (i := 1) rfl) rfl hnet
  rw [buildView_ids] at hshown
  revert hshown
  decide +kernel

example : (Focus.net24 10 0 1).FoldsAway (farFocus (.net24 10 0 1))
    (isGroupNode (∅ : OverrideStore Float)) scatteredHosts none := by decide +kernel

/-- Four hosts of one /24 keep its supernode. -/
theorem focusShown_iff_crowded :
    (∀ go, (isolate (farFocus (.net24 10 0 0)) (({} : ViewInput Float).folding go crowdedSubnet
          (farFocus (.net24 10 0 0)))).length ≤ (farFocus (.net24 10 0 0)).nodeCap →
        FocusShown crowdedSubnet (farFocus (.net24 10 0 0)) (isGroupNode (∅ : OverrideStore Float))
          (.net24 10 0 0) (buildView go crowdedSubnet (farFocus (.net24 10 0 0))
            ({} : ViewInput Float)).1)
      ↔ ¬ (Focus.net24 10 0 0).FoldsAway (farFocus (.net24 10 0 0))
        (isGroupNode (∅ : OverrideStore Float)) crowdedSubnet none :=
  focusShown_iff crowdedSubnet (farFocus (.net24 10 0 0)) {} (.net24 10 0 0) (by decide) (by decide)
    rfl ⟨Runtime.stable, by decide +kernel⟩

end Etherchimp
