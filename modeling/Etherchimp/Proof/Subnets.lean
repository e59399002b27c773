import Etherchimp.Proof.LevelFolds
import Etherchimp.Proof.SubnetNames

/-!
# What the first level leaves

Which subnets are folded, into what, and how many nodes are left can be told from the
hosts alone: a subnet that is not opened is folded whole or not at all, an opened one
keeps its budget. Only which members of an opened subnet are cut off is up to the sort.
So what the second level finds in a /16 is the same for every order of the maps.
-/

namespace Etherchimp

open Chains Grouping

/-! ## The subnets of the hosts -/

/-- The /24 of a node's address, as the first level names it. -/
def host24 (n : Node) : String :=
  if primarySubnet24 n = "" then "" else primarySubnet24 n ++ ".0/24"

/-- The name of the /16 an `a.b.c` is in. -/
def above24 (net : String) : String := (beforeLastDot net).elim "" (· ++ ".0.0/16")

/-- The /16 of a node's address for the second level, which leaves an opened /24 alone. -/
def address16 (cfg : ViewConfig) (n : Node) : String :=
  if primarySubnet24 n = "" ∨ cfg.isExpanded (host24 n) = true then ""
  else above24 (primarySubnet24 n)

section Hosts

variable (cfg : ViewConfig) (isGroup : Node → Bool) (raw : RawSnapshot)

/-- What a build starts to fold from. -/
def unfolded : Folding where
  kept := survivors cfg raw
  visible := (visibleTraffic cfg raw).visible

/-- The surviving hosts of a /24. -/
def hosts24 (c : String) : List Node := subnetNodes isGroup host24 (survivors cfg raw) c

/-- The /24 is folded whole: it is not opened, and has enough hosts. -/
def Crowded (c : String) : Prop :=
  cfg.isExpanded c = false ∧ minHostsToCollapse ≤ (hosts24 cfg isGroup raw c).length

instance (c : String) : Decidable (Crowded cfg isGroup raw c) := inferInstanceAs (Decidable (_ ∧ _))

/-- The supernode of all hosts of a /24. -/
def supernode24 (c : String) : Node :=
  (Fold.mk c c false ((hosts24 cfg isGroup raw c).map fun n => (n, 0))).superNode

/-- What the second level finds in a /16: hosts, and the supernodes of crowded /24s. -/
def entries16 (p : String) : List Node :=
  let hosts := subnetNodes isGroup (address16 cfg) (survivors cfg raw) p
  (hosts.filter fun n => ¬ Crowded cfg isGroup raw (host24 n))
    ++ (((hosts.map host24).dedup.filter fun c => Crowded cfg isGroup raw c).map
      (supernode24 cfg isGroup raw)).filter fun k => !isGroup k

/-- The packets such a node counts: its own, and those of the hosts folded into it. -/
def traffic (n : Node) : Nat :=
  let visible (n : Node) := ((visibleTraffic cfg raw).visible.lookup n.ip).getD 0
  if cfg.filtering then
    visible n + if Crowded cfg isGroup raw n.ip then
        ((hosts24 cfg isGroup raw n.ip).map visible).sum
      else 0
  else n.packetCount

/-- The /24s with hosts. -/
def subnets24 : List String :=
  (((survivors cfg raw).filter fun n => !isGroup n).map host24).dedup.filter (· ≠ "")

/-- How many nodes the first level leaves. -/
def countAfter24 : Nat :=
  ((survivors cfg raw).filter fun n => isGroup n || decide (host24 n = "")).length
    + ((subnets24 cfg isGroup raw).map fun c =>
        nodesLeft cfg c (hosts24 cfg isGroup raw c).length).sum

/-- The second level is called for. -/
def Folds16 : Prop := cfg.threshold < countAfter24 cfg isGroup raw ∨ cfg.zoomBand = "far"

instance : Decidable (Folds16 cfg isGroup raw) := inferInstanceAs (Decidable (_ ∨ _))

/-- Distinct ids, none of which is the name of a supernode the folding makes. -/
structure ClearNames : Prop where
  nodup : ((survivors cfg raw).map Node.ip).Nodup
  first : ∀ c id, superIDOf cfg c (hosts24 cfg isGroup raw c).length = some id →
    id ∉ (survivors cfg raw).map Node.ip
  second : Folds16 cfg isGroup raw →
    ∀ p id, superIDOf cfg p (entries16 cfg isGroup raw p).length = some id →
      id ∉ (survivors cfg raw).map Node.ip

end Hosts

/-! ## The first level -/

/-- The user has opened the host's /24 in full. -/
def OpenedFully (cfg : ViewConfig) (n : Node) : Prop :=
  cfg.isFullExpand (primarySubnet24 n ++ ".0/24") = true

section Start

variable {hosts : List Node}

/-- Before anything is folded every host stands for itself. -/
theorem partition_start (hids : (hosts.map Node.ip).Nodup) (full : Node → Prop)
    (visible : KeyedMap String Nat) :
    Partition hosts full 1 { kept := hosts, visible := visible }
      (fun id => hosts.filter fun h => h.ip = id) := by
  have hself : ∀ k ∈ hosts, hosts.filter (fun h => h.ip = k.ip) = [k] := by
    intro k hk
    have hnd := (List.Nodup.of_map _ hids).filter fun h : Node => decide (h.ip = k.ip)
    refine List.perm_singleton.mp ((List.perm_ext_iff_of_nodup hnd (List.nodup_singleton k)).mpr
      fun n => ?_)
    rw [List.mem_filter, decide_eq_true_eq, List.mem_singleton]
    refine ⟨fun h => List.inj_on_of_nodup_map hids h.1 hk h.2, ?_⟩
    rintro rfl
    exact ⟨hk, rfl⟩
  refine
    { nodup := hids, split := ?_, packets := fun k hk => ?_, bytes := fun k hk => ?_,
      count := fun k hk => ?_, leads := fun k hk n hn => ?_, loose := fun k hk _ => hself k hk,
      roots := fun _ _ => rfl, supers := fun _ h => ?_, ranked := fun _ _ h => ?_,
      low := fun k hk => ?_, below := fun _ _ h => ?_, keys := fun _ _ h => ?_,
      shown := fun _ _ _ => rfl }
  · rw [List.flatMap_congr hself]
    simp
  · rw [hself k hk]
    simp
  · rw [hself k hk]
    simp
  · rw [hself k hk]
    rfl
  · rw [hself k hk] at hn
    rw [List.mem_singleton.mp hn]
    exact Leads.refl _ _
  · exact absurd h Bool.false_ne_true
  · exact absurd h nofun
  · rw [superRank_host hk]
    exact Nat.zero_le 1
  · exact absurd h nofun
  · exact absurd h nofun

end Start

/-- What the first level leaves. -/
def firstLevel (go : Runtime) (cfg : ViewConfig) (isGroup : Node → Bool) (raw : RawSnapshot) :
    Folding :=
  collapseLevel go cfg isGroup (cidr24Of (unfolded cfg raw)) (unfolded cfg raw)

section First

variable {go : Runtime} {cfg : ViewConfig} {isGroup : Node → Bool} {raw : RawSnapshot}
  (hc : ClearNames cfg isGroup raw)

include hc

theorem fits_24 : Fits (survivors cfg raw) (OpenedFully cfg) 1 cfg isGroup host24
    (survivors cfg raw) := by
  refine ⟨Nat.one_pos, fun n _ hne => ?_, hc.first, fun n hn => ?_, fun n _ _ hfull => ?_⟩
  · unfold host24 at hne ⊢
    by_cases h0 : primarySubnet24 n = ""
    · exact absurd (if_pos h0) hne
    · rw [if_neg h0]
      exact proper_24 _
  · rw [superRank_host hn]
    exact Nat.one_pos
  · unfold host24
    by_cases h0 : primarySubnet24 n = ""
    · exact .inl (if_pos h0)
    · rw [if_neg h0]
      exact .inr hfull

variable (go) in
theorem partition_firstLevel : ∃ content, Partition (survivors cfg raw) (OpenedFully cfg) 1
    (firstLevel go cfg isGroup raw) content :=
  (partition_start hc.nodup (OpenedFully cfg) (visibleTraffic cfg raw).visible).collapseLevel go
    isGroup (fits_24 hc) hc.nodup

/-- The folds of the first level, and the packets they leave visible. -/
structure FirstFolds (go : Runtime) (cfg : ViewConfig) (isGroup : Node → Bool) (raw : RawSnapshot)
    (fs : List Fold) : Prop extends LevelFolds cfg isGroup host24 (unfolded cfg raw)
      (firstLevel go cfg isGroup raw) fs where
  visible : ∀ n ∈ survivors cfg raw,
    ((firstLevel go cfg isGroup raw).visible.lookup n.ip).getD 0
      = ((visibleTraffic cfg raw).visible.lookup n.ip).getD 0
  visible_super : ∀ f ∈ fs, ((firstLevel go cfg isGroup raw).visible.lookup f.superID).getD 0
    = ((visibleTraffic cfg raw).visible.lookup f.superID).getD 0
      + (f.nodes.map fun n => ((visibleTraffic cfg raw).visible.lookup n.ip).getD 0).sum

omit hc in
theorem FirstFolds.folded {go : Runtime} {fs : List Fold} (h : FirstFolds go cfg isGroup raw fs)
    (id : String) : ((firstLevel go cfg isGroup raw).hostToSuper.lookup id).isSome = true
      ↔ ∃ f ∈ fs, id ∈ f.nodes.map Node.ip := by
  rw [h.mapped]
  exact or_iff_left Bool.false_ne_true

variable (go) in
theorem exists_firstFolds : ∃ fs, FirstFolds go cfg isGroup raw fs := by
  obtain ⟨fs, h, hrun⟩ := exists_levelFolds go (s := unfolded cfg raw) (fits_24 hc) hc.nodup
    fun _ _ => rfl
  obtain ⟨-, hnames, habove⟩ := h.names (fits_24 hc)
  have hfresh : ∀ f ∈ fs, ∀ f' ∈ fs, ∀ n ∈ f.nodes, n.ip ≠ f'.superID := fun f hf f' hf' n hn =>
    habove f' hf' n (mem_subnetNodes.mp ((h.folds f hf).nodes n hn)).1
  obtain ⟨hother, hown⟩ := foldl_fold_visible hnames hfresh { folding := unfolded cfg raw }
  have hvis : ∀ id, (firstLevel go cfg isGroup raw).visible.lookup id
      = (fs.foldl Level.fold { folding := unfolded cfg raw }).folding.visible.lookup id := by
    intro id
    rw [← hrun]
    rfl
  refine ⟨fs, h, fun n hn => ?_, fun f hf => ?_⟩
  · rw [hvis]
    refine hother n.ip fun hin => ?_
    obtain ⟨f, hf, he⟩ := List.mem_map.mp hin
    exact habove f hf n hn he.symm
  · rw [hvis]
    exact hown f hf

end First

/-! ## What the second level finds -/

section Entries

variable {go : Runtime} {cfg : ViewConfig} {isGroup : Node → Bool} {raw : RawSnapshot} {s : Folding}
  {k n : Node} {c p : String}

theorem host24_ne_empty (h : host24 n ≠ "") :
    primarySubnet24 n ≠ "" ∧ host24 n = primarySubnet24 n ++ ".0/24" := by
  unfold host24 at h ⊢
  by_cases h0 : primarySubnet24 n = ""
  · exact absurd (if_pos h0) h
  · exact ⟨h0, if_neg h0⟩

/-- What the second level asks a node for. -/
theorem cidr16Of_eq (cfg : ViewConfig) (s : Folding) (n : Node) : cidr16Of cfg s n
    = above24 (if s.isSuper n.ip then
        if cfg.isExpanded (baseCIDR n.ip) then ""
        else if trimSuffix (baseCIDR n.ip) ".0/24" = baseCIDR n.ip then ""
        else trimSuffix (baseCIDR n.ip) ".0/24"
      else if primarySubnet24 n = "" then ""
      else if cfg.isExpanded (primarySubnet24 n ++ ".0/24") then "" else primarySubnet24 n) := by
  unfold cidr16Of above24
  simp only []
  cases beforeLastDot _ <;> rfl

theorem above24_empty : above24 "" = "" := rfl

theorem cidr16Of_host (hsup : s.isSuper n.ip = false) : cidr16Of cfg s n = address16 cfg n := by
  rw [cidr16Of_eq, hsup, if_neg Bool.false_ne_true]
  unfold address16 host24
  by_cases h0 : primarySubnet24 n = ""
  · rw [if_pos h0, if_pos (.inl h0), above24_empty]
  · rw [if_neg h0, if_neg h0]
    by_cases hexp : cfg.isExpanded (primarySubnet24 n ++ ".0/24") = true
    · rw [if_pos hexp, if_pos (.inr hexp), above24_empty]
    · rw [if_neg hexp, if_neg (not_or.mpr ⟨h0, hexp⟩)]

/-- The supernode of a /24, or its tail, is in the /16 of the hosts. -/
theorem cidr16Of_super (hsup : s.isSuper k.ip = true) (hne : host24 n ≠ "")
    (hname : k.ip = host24 n ∨ k.ip = residualSuperID (host24 n)) :
    cidr16Of cfg s k = address16 cfg n := by
  obtain ⟨h0, hcidr⟩ := host24_ne_empty hne
  have hbase : baseCIDR k.ip = host24 n := by
    rcases hname with he | he
    · rw [he, hcidr, (proper_24 _).base]
    · rw [he, baseCIDR_residual]
  have htrim : trimSuffix (host24 n) ".0/24" = primarySubnet24 n := by
    rw [hcidr]
    exact trimSuffix_append _ _
  have hcut : primarySubnet24 n ≠ host24 n := by
    intro he
    have hlen : ".0/24".length = 5 := by decide
    have he := congrArg String.length (he.trans hcidr)
    rw [String.length_append] at he
    omega
  rw [cidr16Of_eq, if_pos hsup, hbase, htrim, if_neg hcut]
  unfold address16
  by_cases hexp : cfg.isExpanded (host24 n) = true
  · rw [if_pos hexp, if_pos (.inr hexp), above24_empty]
  · rw [if_neg hexp, if_neg (not_or.mpr ⟨h0, hexp⟩)]

theorem address16_ne_empty (h : address16 cfg n ≠ "") :
    host24 n ≠ "" ∧ cfg.isExpanded (host24 n) = false := by
  unfold address16 at h
  by_cases hor : primarySubnet24 n = "" ∨ cfg.isExpanded (host24 n) = true
  · exact absurd (if_pos hor) h
  · rw [not_or, Bool.not_eq_true] at hor
    refine ⟨?_, hor.2⟩
    unfold host24
    rw [if_neg hor.1]
    intro he
    have hlen : ".0/24".length = 5 := by decide
    have hzero : "".length = 0 := rfl
    have he := congrArg String.length he
    rw [String.length_append] at he
    omega

theorem address16_ne_empty_name (h : address16 cfg n ≠ "") :
    ∃ before, address16 cfg n = before ++ ".0.0/16" := by
  unfold address16 at h ⊢
  split at h
  · exact absurd rfl h
  · rename_i hor
    rw [if_neg hor]
    unfold above24 at h ⊢
    cases hb : beforeLastDot (primarySubnet24 n) with
    | none =>
      rw [hb] at h
      exact absurd rfl h
    | some before => exact ⟨before, rfl⟩

theorem superIDOf_crowded (h : Crowded cfg isGroup raw c) :
    superIDOf cfg c (hosts24 cfg isGroup raw c).length = some c := by
  have hfull : cfg.isFullExpand c = false := by
    have hexp := h.1
    unfold ViewConfig.isExpanded at hexp
    exact (Bool.or_eq_false_iff.mp hexp).2
  unfold superIDOf
  rw [hfull, h.1, if_neg Bool.false_ne_true, if_neg Bool.false_ne_true, if_neg (Nat.not_lt.mpr h.2)]

theorem crowded_of_superIDOf {id : String} (hexp : cfg.isExpanded c = false)
    (h : superIDOf cfg c (hosts24 cfg isGroup raw c).length = some id) :
    Crowded cfg isGroup raw c := ⟨hexp, (superIDOf_some h).2 hexp⟩

theorem mem_entries16 : k ∈ entries16 cfg isGroup raw p
    ↔ (k ∈ subnetNodes isGroup (address16 cfg) (survivors cfg raw) p
        ∧ ¬ Crowded cfg isGroup raw (host24 k))
      ∨ ∃ n ∈ subnetNodes isGroup (address16 cfg) (survivors cfg raw) p,
        Crowded cfg isGroup raw (host24 n) ∧ supernode24 cfg isGroup raw (host24 n) = k
          ∧ isGroup k = false := by
  unfold entries16
  rw [List.mem_append, List.mem_filter, List.mem_filter, List.mem_map, decide_eq_true_eq,
    Bool.not_eq_true']
  refine or_congr Iff.rfl ⟨?_, ?_⟩
  · rintro ⟨⟨c, hc, rfl⟩, hgrp⟩
    obtain ⟨hc, hcrowd⟩ := List.mem_filter.mp hc
    obtain ⟨n, hn, rfl⟩ := List.mem_map.mp (List.mem_dedup.mp hc)
    exact ⟨n, hn, of_decide_eq_true hcrowd, rfl, hgrp⟩
  · rintro ⟨n, hn, hcrowd, rfl, hgrp⟩
    exact ⟨⟨host24 n, List.mem_filter.mpr ⟨List.mem_dedup.mpr (List.mem_map_of_mem hn),
      decide_eq_true hcrowd⟩, rfl⟩, hgrp⟩

section Found

variable {fs : List Fold} (hc : ClearNames cfg isGroup raw) (h : FirstFolds go cfg isGroup raw fs)

include hc in
theorem crowded_not_host (hcrowd : Crowded cfg isGroup raw c) (hn : n ∈ survivors cfg raw) :
    n.ip ≠ c := fun he =>
  hc.first c c (superIDOf_crowded hcrowd) (he ▸ List.mem_map_of_mem hn)

include h

/-- A crowded /24 is folded into its supernode. -/
theorem FirstFolds.crowded (hcrowd : Crowded cfg isGroup raw c) :
    ∃ f ∈ fs, f.cidr = c ∧ f.superID = c ∧ f.superNode = supernode24 cfg isGroup raw c
      ∧ f.nodes.Perm (hosts24 cfg isGroup raw c) := by
  have hsome : (superIDOf cfg c (hosts24 cfg isGroup raw c).length).isSome = true := by
    rw [superIDOf_crowded hcrowd]
    rfl
  obtain ⟨f, hf, rfl⟩ := List.mem_map.mp ((h.mem_iff c).mpr hsome)
  have hsame := h.whole f hf hcrowd.1
  have hnodes := hsame.nodes
  rw [nodes_unplaced] at hnodes
  exact ⟨f, hf, rfl, hsame.superID, hsame.superNode, hnodes⟩

/-- A host of a /24 that is not opened is mapped when the /24 is crowded. -/
theorem FirstFolds.mapped_iff (hn : n ∈ hosts24 cfg isGroup raw (host24 n))
    (hids : ((survivors cfg raw).map Node.ip).Nodup) (hexp : cfg.isExpanded (host24 n) = false) :
    ((firstLevel go cfg isGroup raw).hostToSuper.lookup n.ip).isSome = true
      ↔ Crowded cfg isGroup raw (host24 n) := by
  rw [h.folded]
  constructor
  · rintro ⟨f, hf, hin⟩
    obtain ⟨n', hn', he⟩ := List.mem_map.mp hin
    have hfold := h.folds f hf
    obtain ⟨hk, -, hcidr, -⟩ := mem_subnetNodes.mp (hfold.nodes n' hn')
    obtain rfl := List.inj_on_of_nodup_map hids hk (mem_subnetNodes.mp hn).1 he
    exact crowded_of_superIDOf hexp (hcidr ▸ hfold.superID)
  · intro hcrowd
    obtain ⟨f, hf, -, -, -, hnodes⟩ := h.crowded hcrowd
    exact ⟨f, hf, List.mem_map_of_mem (hnodes.mem_iff.mpr hn)⟩

include hc

theorem FirstFolds.isSuper {f : Fold} (hf : f ∈ fs) :
    (firstLevel go cfg isGroup raw).isSuper f.superID = true := by
  obtain ⟨content, hp⟩ := partition_firstLevel go hc
  have hfold := h.folds f hf
  have hk : f.superNode ∈ (firstLevel go cfg isGroup raw).kept := by
    rw [h.kept]
    exact List.mem_append_left _ (List.mem_map_of_mem hf)
  refine hp.isSuper_of_rank hk ?_
  rw [Fold.superNode_ip, superRank_name (hc.first f.cidr f.superID hfold.superID),
    ((h.names (fits_24 hc)).1 f hf).name_rank hfold.name]
  exact Nat.one_pos

/-- **The second level finds the same nodes in a /16 whatever the runtime.** -/
theorem FirstFolds.entries_perm (p : String) :
    (subnetNodes isGroup (cidr16Of cfg (firstLevel go cfg isGroup raw))
      (firstLevel go cfg isGroup raw).kept p).Perm (entries16 cfg isGroup raw p) := by
  obtain ⟨content, hp⟩ := partition_firstLevel go hc
  have hloose : ∀ n ∈ subnetNodes isGroup (address16 cfg) (survivors cfg raw) p,
      ((firstLevel go cfg isGroup raw).hostToSuper.lookup n.ip).isSome = true
        ↔ Crowded cfg isGroup raw (host24 n) := by
    intro n hn
    obtain ⟨hk, hgrp, h16, hne⟩ := mem_subnetNodes.mp hn
    obtain ⟨hne, hexp⟩ := address16_ne_empty (h16.symm ▸ hne)
    exact h.mapped_iff (mem_subnetNodes.mpr ⟨hk, hgrp, rfl, hne⟩) hc.nodup hexp
  refine (List.perm_ext_iff_of_nodup ((List.Nodup.of_map _ hp.nodup).filter _) ?_).mpr fun k => ?_
  · refine List.Nodup.append (((List.Nodup.of_map _ hc.nodup).filter _).filter _) ?_ ?_
    · refine (List.Nodup.map (fun a b hab => ?_) ((List.nodup_dedup _).filter _)).filter _
      exact congrArg Node.ip hab
    · -- a host has no supernode's name
      intro k hk hk'
      obtain ⟨c, hcin, rfl⟩ := List.mem_map.mp (List.mem_filter.mp hk').1
      have hcrowd := of_decide_eq_true (List.mem_filter.mp hcin).2
      exact crowded_not_host hc hcrowd (mem_subnetNodes.mp (List.mem_filter.mp hk).1).1 rfl
  · refine mem_subnetNodes.trans ?_
    rw [mem_entries16, h.kept, List.mem_append, List.mem_map, List.mem_filter]
    constructor
    · rintro ⟨⟨f, hf, rfl⟩ | ⟨hk, hnone⟩, hgrp, h16, hne⟩
      · right
        have hfold := h.folds f hf
        obtain ⟨n, hn⟩ := List.exists_mem_of_ne_nil _ (h.nonempty f hf)
        obtain ⟨hk, hgrpn, hcidr, hcne⟩ := mem_subnetNodes.mp (hfold.nodes n hn)
        have h16n : address16 cfg n = p := by
          rw [← h16]
          refine (cidr16Of_super (h.isSuper hc hf) (hcidr.symm ▸ hcne) ?_).symm
          rw [hcidr]
          exact hfold.name
        have hexp := (address16_ne_empty (h16n.symm ▸ hne)).2
        rw [hcidr] at hexp
        have hcrowd := crowded_of_superIDOf hexp hfold.superID
        refine ⟨n, mem_subnetNodes.mpr ⟨hk, hgrpn, h16n, hne⟩, hcidr.symm ▸ hcrowd, ?_, hgrp⟩
        rw [hcidr]
        exact (h.whole f hf hexp).superNode.symm
      · left
        rw [cidr16Of_host (hp.host_not_super hk)] at h16
        have hmem : k ∈ subnetNodes isGroup (address16 cfg) (survivors cfg raw) p :=
          mem_subnetNodes.mpr ⟨hk, hgrp, h16, hne⟩
        refine ⟨hmem, fun hcrowd => ?_⟩
        have hsome := (hloose k hmem).mpr hcrowd
        rw [Option.isNone_iff_eq_none.mp hnone] at hsome
        exact Bool.false_ne_true hsome
    · rintro (⟨hmem, hcrowd⟩ | ⟨n, hmem, hcrowd, rfl, hgrp⟩)
      · obtain ⟨hk, hgrp, h16, hne⟩ := mem_subnetNodes.mp hmem
        refine ⟨.inr ⟨hk, ?_⟩, hgrp, ?_, hne⟩
        · rw [Option.isNone_iff_eq_none, ← Option.not_isSome_iff_eq_none, hloose k hmem]
          exact hcrowd
        · rw [cidr16Of_host (hp.host_not_super hk), h16]
      · obtain ⟨hk, hgrpn, h16, hne⟩ := mem_subnetNodes.mp hmem
        obtain ⟨f, hf, hcidr, hid, hnode, hnodes⟩ := h.crowded hcrowd
        refine ⟨.inl ⟨f, hf, hnode⟩, hgrp, ?_, hne⟩
        rw [← h16]
        have hsup := h.isSuper hc hf
        rw [hid] at hsup
        exact cidr16Of_super hsup (address16_ne_empty (h16.symm ▸ hne)).1 (.inl rfl)

/-- They count the same packets. -/
theorem FirstFolds.traffic (hk : k ∈ entries16 cfg isGroup raw p) :
    effective cfg (firstLevel go cfg isGroup raw).visible k = traffic cfg isGroup raw k := by
  unfold effective Etherchimp.traffic
  split
  · rcases mem_entries16.mp hk with ⟨hmem, -⟩ | ⟨n, -, hcrowd, rfl, -⟩
    · have hhost := (mem_subnetNodes.mp hmem).1
      have hnot : ¬ Crowded cfg isGroup raw k.ip := fun hcrowd =>
        crowded_not_host hc hcrowd hhost rfl
      simp only [if_neg hnot, h.visible k hhost]
      rfl
    · obtain ⟨f, hf, -, hid, -, hnodes⟩ := h.crowded hcrowd
      have hip : (supernode24 cfg isGroup raw (host24 n)).ip = host24 n := rfl
      have hsuper := h.visible_super f hf
      rw [hid, (hnodes.map _).sum_eq] at hsuper
      simp only [hip]
      rw [if_pos hcrowd]
      exact hsuper
  · rfl

omit h hc in
theorem mem_subnets24 : c ∈ subnets24 cfg isGroup raw ↔ ∃ n, n ∈ hosts24 cfg isGroup raw c := by
  unfold subnets24 hosts24
  rw [List.mem_filter, List.mem_dedup, List.mem_map, decide_eq_true_eq]
  constructor
  · rintro ⟨⟨n, hn, rfl⟩, hne⟩
    obtain ⟨hk, hgrp⟩ := List.mem_filter.mp hn
    exact ⟨n, mem_subnetNodes.mpr ⟨hk, Bool.not_eq_true' _ |>.mp hgrp, rfl, hne⟩⟩
  · rintro ⟨n, hn⟩
    obtain ⟨hk, hgrp, rfl, hne⟩ := mem_subnetNodes.mp hn
    exact ⟨⟨n, List.mem_filter.mpr ⟨hk, by rw [hgrp]; rfl⟩, rfl⟩, hne⟩

omit h hc in
variable (cfg isGroup raw) in
/-- The hosts are those of the subnets and those of none. -/
theorem survivors_split : (survivors cfg raw).length
    = ((survivors cfg raw).filter fun n => isGroup n || decide (host24 n = "")).length
      + ((subnets24 cfg isGroup raw).map fun c => (hosts24 cfg isGroup raw c).length).sum := by
  have hsum : ((subnets24 cfg isGroup raw).map fun c => (hosts24 cfg isGroup raw c).length).sum
      = (((survivors cfg raw).filter fun n => !isGroup n).map host24).countP (· ≠ "") := by
    rw [← List.sum_map_count_dedup_filter_eq_countP]
    refine congrArg List.sum (List.map_congr_left fun c hc => ?_)
    have hne := of_decide_eq_true (List.mem_filter.mp hc).2
    unfold hosts24 subnetNodes
    rw [List.count, List.countP_map, List.countP_filter, List.countP_eq_length_filter]
    refine congrArg List.length (List.filter_congr fun n _ => ?_)
    simp [hne, Bool.and_comm, beq_eq_decide]
  rw [hsum, List.countP_map, List.countP_filter, List.countP_eq_length_filter,
    List.length_eq_length_filter_add fun n => isGroup n || decide (host24 n = "")]
  congr 2
  refine List.filter_congr fun n _ => ?_
  simp [Bool.and_comm]

/-- What is mapped are the nodes folded. -/
theorem FirstFolds.mapped_perm : ((survivors cfg raw).filter fun n =>
    ((firstLevel go cfg isGroup raw).hostToSuper.lookup n.ip).isSome).Perm
      (fs.flatMap Fold.nodes) := by
  refine (List.perm_ext_iff_of_nodup ((List.Nodup.of_map _ hc.nodup).filter _) ?_).mpr fun n => ?_
  · refine List.nodup_flatMap.mpr ⟨h.distinct, (List.pairwise_map.mp h.nodup).imp_of_mem ?_⟩
    -- a node is of one subnet
    intro f f' hf hf' hne n hn hn'
    have hcidr := (mem_subnetNodes.mp ((h.folds f hf).nodes n hn)).2.2.1
    exact hne (hcidr.symm.trans (mem_subnetNodes.mp ((h.folds f' hf').nodes n hn')).2.2.1)
  · rw [List.mem_filter, List.mem_flatMap, h.folded]
    constructor
    · rintro ⟨hn, f, hf, hin⟩
      obtain ⟨n', hn', he⟩ := List.mem_map.mp hin
      obtain rfl := List.inj_on_of_nodup_map hc.nodup
        (mem_subnetNodes.mp ((h.folds f hf).nodes n' hn')).1 hn he
      exact ⟨f, hf, hn'⟩
    · rintro ⟨f, hf, hn⟩
      exact ⟨(mem_subnetNodes.mp ((h.folds f hf).nodes n hn)).1, f, hf, List.mem_map_of_mem hn⟩

/-- **The first level leaves as many nodes whatever the runtime.** -/
theorem FirstFolds.length_kept :
    (firstLevel go cfg isGroup raw).kept.length = countAfter24 cfg isGroup raw := by
  have hmade : (fs.map Fold.cidr).Perm ((subnets24 cfg isGroup raw).filter fun c =>
      (superIDOf cfg c (hosts24 cfg isGroup raw c).length).isSome) := by
    have hnodup : (subnets24 cfg isGroup raw).Nodup := (List.nodup_dedup _).filter _
    refine (List.perm_ext_iff_of_nodup h.nodup (hnodup.filter _)).mpr fun c => ?_
    rw [List.mem_filter, mem_subnets24, h.mem_iff]
    refine ⟨fun hsome => ⟨?_, hsome⟩, fun hin => hin.2⟩
    refine List.exists_mem_of_length_pos (Nat.pos_of_ne_zero fun h0 => ?_)
    have h0 : (subnetNodes isGroup host24 (unfolded cfg raw).kept c).length = 0 := h0
    rw [h0, superIDOf_zero] at hsome
    exact Bool.false_ne_true hsome
  -- subnet by subnet: the nodes folded, and those left
  have hsubnets : ((subnets24 cfg isGroup raw).map fun c =>
        nodesLeft cfg c (hosts24 cfg isGroup raw c).length).sum
      + (fs.map fun f => f.nodes.length).sum
      = ((subnets24 cfg isGroup raw).map fun c => (hosts24 cfg isGroup raw c).length).sum
        + fs.length := by
    have hsum : ∀ w : String → Nat, ((subnets24 cfg isGroup raw).map w).sum
        = (fs.map fun f => w f.cidr).sum + (((subnets24 cfg isGroup raw).filter fun c =>
          !(superIDOf cfg c (hosts24 cfg isGroup raw c).length).isSome).map w).sum := by
      intro w
      have hsplit := List.filter_append_perm
        (fun c => (superIDOf cfg c (hosts24 cfg isGroup raw c).length).isSome)
        (subnets24 cfg isGroup raw)
      rw [← (hsplit.map w).sum_eq, List.map_append, List.sum_append, ← (hmade.map w).sum_eq,
        List.map_map]
      rfl
    have hleft : (fs.map fun f => nodesLeft cfg f.cidr (hosts24 cfg isGroup raw f.cidr).length).sum
        + (fs.map fun f => f.nodes.length).sum
        = (fs.map fun f => (hosts24 cfg isGroup raw f.cidr).length).sum + fs.length := by
      have hone : (fs.map fun _ => 1).sum = fs.length := by simp
      rw [← hone, ← List.sum_map_add, ← List.sum_map_add]
      refine congrArg List.sum (List.map_congr_left fun f hf => ?_)
      rw [Nat.add_comm]
      exact h.left f hf
    have hwhole : ((subnets24 cfg isGroup raw).filter fun c =>
          !(superIDOf cfg c (hosts24 cfg isGroup raw c).length).isSome).map
          (fun c => nodesLeft cfg c (hosts24 cfg isGroup raw c).length)
        = ((subnets24 cfg isGroup raw).filter fun c =>
          !(superIDOf cfg c (hosts24 cfg isGroup raw c).length).isSome).map
          fun c => (hosts24 cfg isGroup raw c).length := by
      refine List.map_congr_left fun c hc => ?_
      have hnone := (List.mem_filter.mp hc).2
      rw [Option.not_isSome] at hnone
      unfold nodesLeft
      rw [if_pos hnone]
    rw [hsum, hsum fun c => (hosts24 cfg isGroup raw c).length, hwhole]
    omega
  have hmapped : ((survivors cfg raw).filter fun n =>
      ((firstLevel go cfg isGroup raw).hostToSuper.lookup n.ip).isSome).length
      = (fs.map fun f => f.nodes.length).sum := by
    rw [(h.mapped_perm hc).length_eq, List.length_flatMap]
  have hsplit := survivors_split cfg isGroup raw
  have hparts := List.length_eq_length_filter_add (l := survivors cfg raw) fun n =>
    ((firstLevel go cfg isGroup raw).hostToSuper.lookup n.ip).isSome
  simp only [Option.not_isSome] at hparts
  have hkept : (firstLevel go cfg isGroup raw).kept = fs.map Fold.superNode
      ++ (survivors cfg raw).filter fun n =>
        ((firstLevel go cfg isGroup raw).hostToSuper.lookup n.ip).isNone := h.kept
  rw [hkept, List.length_append, List.length_map]
  unfold countAfter24
  omega

end Found

end Entries

end Etherchimp
