import Etherchimp.Lib.Cut
import Etherchimp.Lib.Reorder
import Etherchimp.Proof.Folding

/-!
# Folding in any order

A level visits its groups in map order and sorts the members of an opened subnet by
traffic alone. When no budget splits a tie, what it folds is determined by the nodes
it is given, and folds of different groups commute. So the level's outcome is the
same for every order of the nodes and every runtime.

`referenceFold` says what is folded of a subnet without sorting anything.
-/

namespace Etherchimp

open Grouping

/-! ## Foldings that are the same -/

/-- The two foldings read the same under every id. -/
structure SameMaps (s s' : Folding) : Prop where
  visible : ∀ id, (s.visible.lookup id).getD 0 = (s'.visible.lookup id).getD 0
  hostToSuper : ∀ id, s.hostToSuper.lookup id = s'.hostToSuper.lookup id
  superHosts : ∀ id, s.superHosts.lookup id = s'.superHosts.lookup id
  tailSupers : ∀ id, s.tailSupers.lookup id = s'.tailSupers.lookup id

/-- The same but for the order of the nodes. -/
structure SameFolding (s s' : Folding) : Prop extends SameMaps s s' where
  kept : s.kept.Perm s'.kept

structure SameLevel (l l' : Level) : Prop where
  maps : SameMaps l.folding l'.folding
  supers : l.supers.Perm l'.supers

theorem sameLevel_equivalence : Equivalence SameLevel where
  refl _ := ⟨⟨fun _ => rfl, fun _ => rfl, fun _ => rfl, fun _ => rfl⟩, List.Perm.refl _⟩
  symm h := ⟨⟨fun id => (h.maps.visible id).symm, fun id => (h.maps.hostToSuper id).symm,
    fun id => (h.maps.superHosts id).symm, fun id => (h.maps.tailSupers id).symm⟩, h.supers.symm⟩
  trans h h' := ⟨⟨fun id => (h.maps.visible id).trans (h'.maps.visible id),
    fun id => (h.maps.hostToSuper id).trans (h'.maps.hostToSuper id),
    fun id => (h.maps.superHosts id).trans (h'.maps.superHosts id),
    fun id => (h.maps.tailSupers id).trans (h'.maps.tailSupers id)⟩, h.supers.trans h'.supers⟩

namespace SameMaps

variable {s s' : Folding} (h : SameMaps s s')

include h

theorem isSuper : s.isSuper = s'.isSuper := by
  funext id
  unfold Folding.isSuper
  rw [h.superHosts]

theorem memberHostCount : s.memberHostCount = s'.memberHostCount := by
  funext n
  unfold Folding.memberHostCount
  rw [h.superHosts]

theorem effective (cfg : ViewConfig) :
    effective cfg s.visible = Etherchimp.effective cfg s'.visible := by
  funext n
  unfold Etherchimp.effective
  rw [h.visible]

end SameMaps

/-! ## Folding one group -/

/-- The nodes a fold folds. -/
def Fold.nodes (f : Fold) : List Node := f.members.map Prod.fst

/-- A fold whose supernode has a name none of its nodes has. -/
def Fold.Fresh (f : Fold) : Prop := ∀ n ∈ f.nodes, n.ip ≠ f.superID

/-- The same fold, with its members in any order and any place. -/
structure SameFold (f f' : Fold) : Prop where
  superID : f.superID = f'.superID
  cidr : f.cidr = f'.cidr
  isTail : f.isTail = f'.isTail
  nodes : f.nodes.Perm f'.nodes

/-- Folds that share no node and no name. -/
structure Apart (f g : Fold) : Prop where
  names : f.superID ≠ g.superID
  left : ∀ n ∈ f.nodes, n.ip ≠ g.superID
  right : ∀ n ∈ g.nodes, n.ip ≠ f.superID
  nodes : ∀ n ∈ f.nodes, ∀ n' ∈ g.nodes, n.ip ≠ n'.ip

theorem Apart.symm {f g : Fold} (h : Apart f g) : Apart g f :=
  ⟨h.names.symm, h.right, h.left, fun n hn n' hn' => (h.nodes n' hn' n hn).symm⟩

theorem SameFold.superNode {f f' : Fold} (h : SameFold f f') : f.superNode = f'.superNode := by
  have hsum : ∀ w : Node → Nat,
      (f.members.map fun m => w m.1).sum = (f'.members.map fun m => w m.1).sum := by
    intro w
    have := (h.nodes.map w).sum_eq
    unfold Fold.nodes at this
    rwa [List.map_map, List.map_map] at this
  unfold Fold.superNode
  rw [h.superID, h.cidr, hsum, hsum]

namespace Level

variable {l l' : Level} {f f' g : Fold}

/-- What a fold does to the visible packets. -/
theorem fold_visible (hf : f.Fresh) (id : String) : ((l.fold f).folding.visible.lookup id).getD 0
    = if id = f.superID then (l.folding.visible.lookup id).getD 0
        + (f.nodes.map fun n => (l.folding.visible.lookup n.ip).getD 0).sum
      else (l.folding.visible.lookup id).getD 0 := by
  obtain ⟨superID, cidr, isTail, members⟩ := f
  unfold Level.fold Fold.nodes
  unfold Fold.Fresh Fold.nodes at hf
  simp only [List.map_map, Function.comp_def] at hf ⊢
  generalize l.folding.visible = v
  induction members generalizing v with
  | nil => simp
  | cons m ms ih =>
    have hm : m.1.ip ≠ superID := hf m.1 List.mem_cons_self
    have hrest : ∀ n ∈ ms.map Prod.fst, n.ip ≠ superID := fun n hn => hf n (List.mem_cons_of_mem _ hn)
    have hsame : ∀ n ∈ ms, (((v.insert superID ((v.lookup superID).getD 0
        + (v.lookup m.1.ip).getD 0)).lookup n.1.ip).getD 0) = (v.lookup n.1.ip).getD 0 := by
      intro n hn
      rw [AList.lookup_insert_ne (hrest n.1 (List.mem_map_of_mem hn))]
    rw [List.foldl_cons, ih hrest, List.map_congr_left hsame, List.map_cons, List.sum_cons]
    by_cases hid : id = superID
    · rw [if_pos hid, if_pos hid, hid, AList.lookup_insert, Option.getD_some, Nat.add_assoc]
    · rw [if_neg hid, if_neg hid, AList.lookup_insert_ne hid]

theorem fold_hostToSuper (id : String) : (l.fold f).folding.hostToSuper.lookup id
    = if id ∈ f.nodes.map Node.ip then some f.superID else l.folding.hostToSuper.lookup id := by
  unfold Fold.nodes
  rw [List.map_map]
  exact lookup_foldMembers f.members f.superID l.folding.hostToSuper id

theorem fold_superHosts (id : String) : (l.fold f).folding.superHosts.lookup id
    = if id = f.superID then some (f.nodes.map l.folding.memberHostCount).sum
      else l.folding.superHosts.lookup id := by
  unfold Fold.nodes
  rw [List.map_map]
  exact KeyedMap.lookup_insert_eq ..

theorem fold_tailSupers (id : String) : (l.fold f).folding.tailSupers.lookup id
    = if f.isTail = true ∧ id = f.superID then some true else l.folding.tailSupers.lookup id := by
  unfold Level.fold
  simp only []
  by_cases ht : f.isTail = true
  · rw [if_pos ht, KeyedMap.lookup_insert_eq]
    simp only [ht, true_and]
  · rw [if_neg ht, if_neg fun h => ht h.1]

/-- The same fold, done to levels that are the same. -/
theorem fold_same (hff : SameFold f f') (hf : f.Fresh) (h : SameLevel l l') :
    SameLevel (l.fold f) (l'.fold f') := by
  have hf' : f'.Fresh := fun n hn => hff.superID ▸ hf n (hff.nodes.mem_iff.mpr hn)
  refine ⟨⟨fun id => ?_, fun id => ?_, fun id => ?_, fun id => ?_⟩, ?_⟩
  · have hsum : (f.nodes.map fun n => (l.folding.visible.lookup n.ip).getD 0).sum
        = (f'.nodes.map fun n => (l'.folding.visible.lookup n.ip).getD 0).sum := by
      rw [List.map_congr_left fun n _ => h.maps.visible n.ip]
      exact (hff.nodes.map _).sum_eq
    rw [fold_visible hf, fold_visible hf', hsum, h.maps.visible, hff.superID]
  · rw [fold_hostToSuper, fold_hostToSuper, h.maps.hostToSuper, hff.superID]
    exact if_congr (hff.nodes.map Node.ip).mem_iff rfl rfl
  · rw [fold_superHosts, fold_superHosts, h.maps.memberHostCount, h.maps.superHosts, hff.superID,
      (hff.nodes.map _).sum_eq]
  · rw [fold_tailSupers, fold_tailSupers, h.maps.tailSupers, hff.superID, hff.isTail]
  · have hsuper : f.superNode = f'.superNode := hff.superNode
    have hl : (l.fold f).supers = l.supers ++ [f.superNode] := rfl
    have hl' : (l'.fold f').supers = l'.supers ++ [f'.superNode] := rfl
    rw [hl, hl', hsuper]
    exact h.supers.append_right _

/-- What a fold reads of the nodes of another is as it was. -/
theorem fold_other (hf : f.Fresh) (h : Apart f g) : (∀ n ∈ g.nodes,
    ((l.fold f).folding.visible.lookup n.ip).getD 0 = (l.folding.visible.lookup n.ip).getD 0
      ∧ (l.fold f).folding.memberHostCount n = l.folding.memberHostCount n) := by
  intro n hn
  have hne := h.right n hn
  refine ⟨by rw [fold_visible hf, if_neg hne], ?_⟩
  unfold Folding.memberHostCount
  rw [fold_superHosts, if_neg hne]

/-- Folds that are apart commute. -/
theorem fold_comm (hf : f.Fresh) (hg : g.Fresh) (h : Apart f g) :
    SameLevel ((l.fold f).fold g) ((l.fold g).fold f) := by
  have hfg := fold_other (l := l) hf h
  have hgf := fold_other (l := l) hg h.symm
  refine ⟨⟨fun id => ?_, fun id => ?_, fun id => ?_, fun id => ?_⟩, ?_⟩
  · rw [fold_visible hg, fold_visible hf, List.map_congr_left fun n hn => (hfg n hn).1,
      fold_visible hf, fold_visible hg, List.map_congr_left fun n hn => (hgf n hn).1]
    by_cases h₁ : id = f.superID
    · have h₂ : id ≠ g.superID := fun h₂ => h.names (h₁.symm.trans h₂)
      rw [if_neg h₂, if_pos h₁, if_pos h₁, if_neg h₂]
    · rw [if_neg h₁, if_neg h₁]
  · rw [fold_hostToSuper, fold_hostToSuper, fold_hostToSuper, fold_hostToSuper]
    by_cases h₁ : id ∈ f.nodes.map Node.ip
    · have h₂ : id ∉ g.nodes.map Node.ip := by
        intro h₂
        obtain ⟨n, hn, rfl⟩ := List.mem_map.mp h₁
        obtain ⟨n', hn', he⟩ := List.mem_map.mp h₂
        exact h.nodes n hn n' hn' he.symm
      rw [if_neg h₂, if_pos h₁, if_pos h₁]
    · rw [if_neg h₁, if_neg h₁]
  · rw [fold_superHosts, fold_superHosts, List.map_congr_left fun n hn => (hfg n hn).2,
      fold_superHosts, fold_superHosts, List.map_congr_left fun n hn => (hgf n hn).2]
    by_cases h₁ : id = f.superID
    · have h₂ : id ≠ g.superID := fun h₂ => h.names (h₁.symm.trans h₂)
      rw [if_neg h₂, if_pos h₁, if_pos h₁]
    · rw [if_neg h₁, if_neg h₁]
  · rw [fold_tailSupers, fold_tailSupers, fold_tailSupers, fold_tailSupers]
    split <;> split <;> rfl
  · have h₁ : ((l.fold f).fold g).supers = l.supers ++ [f.superNode] ++ [g.superNode] := rfl
    have h₂ : ((l.fold g).fold f).supers = l.supers ++ [g.superNode] ++ [f.superNode] := rfl
    rw [h₁, h₂, List.append_assoc, List.append_assoc]
    exact List.perm_append_comm.append_left l.supers

end Level

/-! ## What is folded of a subnet -/

/-- The budget of an opened subnet shows some but not all nodes of equal traffic. -/
def SplitsTie (cfg : ViewConfig) (isGroup : Node → Bool) (cidrOf : Node → String) (s : Folding)
    (c : String) : Prop :=
  cfg.isExpanded c = true ∧ cfg.isFullExpand c = false
    ∧ Cut.Splits (effective cfg s.visible) (subnetNodes isGroup cidrOf s.kept c) cfg.budget

instance (cfg : ViewConfig) (isGroup : Node → Bool) (cidrOf : Node → String) (s : Folding)
    (c : String) : Decidable (SplitsTie cfg isGroup cidrOf s c) := inferInstanceAs (Decidable (_ ∧ _))

/-- What is folded of a subnet when no tie is split: no sort is needed to say it. -/
def referenceFold (cfg : ViewConfig) (isGroup : Node → Bool) (cidrOf : Node → String) (s : Folding)
    (c : String) : Option Fold :=
  let nodes := subnetNodes isGroup cidrOf s.kept c
  if cfg.isFullExpand c then none
  else if cfg.isExpanded c then
    if nodes.length ≤ cfg.budget then none
    else
      some
        { superID := residualSuperID c
          cidr := c
          isTail := true
          members := (nodes.filter fun n =>
            cfg.budget ≤ Cut.ahead (effective cfg s.visible) nodes n).map fun n => (n, 0) }
  else if nodes.length < minHostsToCollapse then none
  else some { superID := c, cidr := c, isTail := false, members := nodes.map fun n => (n, 0) }

section Reference

variable {go : Runtime} {cfg : ViewConfig} {isGroup : Node → Bool} {cidrOf : Node → String}
  {s s' : Folding} {l : Level} {g : Sigma fun _ : String => List Member} {c : String}

@[simp] theorem nodes_unplaced (superID cidr : String) (isTail : Bool) (nodes : List Node) :
    (Fold.mk superID cidr isTail (nodes.map fun n => (n, 0))).nodes = nodes := by
  unfold Fold.nodes
  rw [List.map_map]
  exact List.map_id nodes

/-- A plan folds what the reference does, if no tie is split. -/
theorem planGroup_reference {visible : KeyedMap String Nat}
    (hnodes : g.2.map Prod.fst = subnetNodes isGroup cidrOf s.kept g.1)
    (heff : ∀ n ∈ subnetNodes isGroup cidrOf s.kept g.1,
      effective cfg visible n = effective cfg s.visible n)
    (htie : ¬ SplitsTie cfg isGroup cidrOf s g.1) :
    Option.Rel SameFold (planGroup go cfg visible g) (referenceFold cfg isGroup cidrOf s g.1) := by
  obtain ⟨c, idxs⟩ := g
  simp only at hnodes heff htie ⊢
  have hlen : idxs.length = (subnetNodes isGroup cidrOf s.kept c).length := by
    rw [← hnodes, List.length_map]
  unfold planGroup referenceFold
  simp only []
  by_cases hfull : cfg.isFullExpand c = true
  · rw [if_pos hfull, if_pos hfull]
    exact Option.Rel.none
  rw [if_neg hfull, if_neg hfull]
  by_cases hexp : cfg.isExpanded c = true
  · rw [if_pos hexp, if_pos hexp, hlen]
    split
    · exact Option.Rel.none
    refine Option.Rel.some ⟨rfl, rfl, rfl, ?_⟩
    rw [nodes_unplaced]
    -- the sorted nodes, by the counts at the start of the level
    let sorted := (go.sortSlice (fun a b : Member =>
      decide (effective cfg visible b.1 < effective cfg visible a.1)) idxs).map Prod.fst
    have hperm : sorted.Perm (subnetNodes isGroup cidrOf s.kept c) := by
      rw [← hnodes]
      exact (go.sortSlice_perm _ idxs).map Prod.fst
    have hsorted : sorted.Pairwise fun a b =>
        effective cfg s.visible b ≤ effective cfg s.visible a := by
      have hpre : Preorders fun a b : Member =>
          decide (effective cfg visible b.1 < effective cfg visible a.1) := by
        constructor
        · intro a b
          simp only [decide_eq_false_iff_not]
          omega
        · intro a b c hab hcb
          simp only [decide_eq_false_iff_not] at hab hcb ⊢
          omega
      refine List.pairwise_map.mpr ((go.sortSlice_sorted hpre idxs).imp_of_mem ?_)
      intro a b ha hb hab
      have hab : effective cfg visible b.1 ≤ effective cfg visible a.1 :=
        Nat.not_lt.mp (of_decide_eq_false hab)
      rwa [heff a.1 (hperm.mem_iff.mp (List.mem_map_of_mem ha)),
        heff b.1 (hperm.mem_iff.mp (List.mem_map_of_mem hb))] at hab
    have hcut : ¬ Cut.Splits (effective cfg s.visible) (subnetNodes isGroup cidrOf s.kept c)
        cfg.budget := fun h => htie ⟨hexp, Bool.eq_false_iff.mpr hfull, h⟩
    have hdrop := Cut.drop_perm hperm hsorted hcut
    rw [← List.map_drop] at hdrop
    exact hdrop
  rw [if_neg hexp, if_neg hexp, hlen]
  split
  · exact Option.Rel.none
  · refine Option.Rel.some ⟨rfl, rfl, rfl, ?_⟩
    rw [nodes_unplaced, ← hnodes]
    exact List.Perm.refl _

/-- What a fold of a subnet folds: some of its nodes, into the supernode it is given. -/
structure FoldsOf (cfg : ViewConfig) (isGroup : Node → Bool) (cidrOf : Node → String)
    (kept : List Node) (c : String) (f : Fold) : Prop where
  superID : superIDOf cfg c (subnetNodes isGroup cidrOf kept c).length = some f.superID
  nodes : ∀ n ∈ f.nodes, n ∈ subnetNodes isGroup cidrOf kept c

theorem FoldsOf.name {f : Fold} {kept : List Node} (h : FoldsOf cfg isGroup cidrOf kept c f) :
    f.superID = c ∨ f.superID = residualSuperID c := superIDOf_name h.superID

theorem referenceFold_some {f : Fold} (h : referenceFold cfg isGroup cidrOf s c = some f) :
    FoldsOf cfg isGroup cidrOf s.kept c f := by
  unfold referenceFold at h
  simp only [] at h
  by_cases hfull : cfg.isFullExpand c = true
  · rw [if_pos hfull] at h
    exact absurd h nofun
  rw [if_neg hfull] at h
  by_cases hexp : cfg.isExpanded c = true
  · rw [if_pos hexp] at h
    split at h
    · exact absurd h nofun
    · rename_i hlen
      rw [← Option.some.inj h]
      refine ⟨?_, fun n hn => ?_⟩
      · unfold superIDOf
        rw [if_neg hfull, if_pos hexp, if_neg hlen]
      · rw [nodes_unplaced] at hn
        exact (List.mem_filter.mp hn).1
  · rw [if_neg hexp] at h
    split at h
    · exact absurd h nofun
    · rename_i hlen
      rw [← Option.some.inj h]
      refine ⟨?_, fun n hn => ?_⟩
      · unfold superIDOf
        rw [if_neg hfull, if_neg hexp, if_neg hlen]
      · rwa [nodes_unplaced] at hn

theorem planGroup_foldsOf {visible : KeyedMap String Nat} {f : Fold}
    (hnodes : g.2.map Prod.fst = subnetNodes isGroup cidrOf s.kept g.1)
    (h : planGroup go cfg visible g = some f) : FoldsOf cfg isGroup cidrOf s.kept g.1 f := by
  refine ⟨?_, fun n hn => ?_⟩
  · rw [← hnodes, List.length_map]
    exact (planGroup_some h).superID
  obtain ⟨m, hm, rfl⟩ := List.mem_map.mp hn
  rw [← hnodes]
  exact List.mem_map_of_mem ((planGroup_some h).subset m hm)

/-! ## Names above the nodes -/

section Ranked

variable {hosts : List Node} {full : Node → Prop} {r : Nat} {f : Fold}
  (fits : Fits hosts full r cfg isGroup cidrOf s.kept)

include fits

/-- A subnet with a group is a proper name of the level. -/
theorem key_proper (hc :
    ((groups Prod.fst Prod.snd (subnetMembers isGroup cidrOf s.kept)).lookup c).isSome) :
    Proper r c := by
  obtain ⟨⟨c', m⟩, hcm, rfl⟩ := (isSome_lookup_groups Prod.fst Prod.snd _ c).mp hc
  obtain ⟨hm, -, hcidr, hne⟩ := mem_subnetMembers.mp hcm
  have := fits.proper m.1 (mem_kept_of_zipIdx hm) (hcidr.symm ▸ hne)
  rwa [hcidr] at this

theorem name_above (hc : Proper r c) (hf : FoldsOf cfg isGroup cidrOf s.kept c f) {n : Node}
    (hn : n ∈ s.kept) : n.ip ≠ f.superID := by
  have hrank : superRank hosts f.superID = r := by
    rw [superRank_name (fits.clear c f.superID hf.superID), hc.name_rank hf.name]
  intro he
  have := fits.low n hn
  rw [he, hrank] at this
  exact absurd this (Nat.lt_irrefl r)

theorem FoldsOf.fresh (hc : Proper r c) (hf : FoldsOf cfg isGroup cidrOf s.kept c f) : f.Fresh :=
  fun n hn => name_above fits hc hf (mem_subnetNodes.mp (hf.nodes n hn)).1

/-- Folds of different subnets are apart. -/
theorem FoldsOf.apart (hids : (s.kept.map Node.ip).Nodup) {c' : String} {f' : Fold}
    (hc : Proper r c) (hc' : Proper r c') (hne : c ≠ c')
    (hf : FoldsOf cfg isGroup cidrOf s.kept c f) (hf' : FoldsOf cfg isGroup cidrOf s.kept c' f') :
    Apart f f' := by
  refine ⟨names_ne hc hc' hne hf.name hf'.name, fun n hn => ?_, fun n hn => ?_,
    fun n hn n' hn' he => hne ?_⟩
  · exact name_above fits hc' hf' (mem_subnetNodes.mp (hf.nodes n hn)).1
  · exact name_above fits hc hf (mem_subnetNodes.mp (hf'.nodes n hn)).1
  · -- one node, one subnet
    obtain ⟨hk, -, hcn, -⟩ := mem_subnetNodes.mp (hf.nodes n hn)
    obtain ⟨hk', -, hcn', -⟩ := mem_subnetNodes.mp (hf'.nodes n' hn')
    rw [← hcn, ← hcn', List.inj_on_of_nodup_map hids hk hk' he]

/-! ## A whole level -/

/-- **A level that splits no tie folds what the reference does**, group by group. -/
theorem foldl_reference (hties : ∀ c, ¬ SplitsTie cfg isGroup cidrOf s c)
    {gs : List (Sigma fun _ : String => List Member)} (hgs : ∀ g ∈ gs,
      (groups Prod.fst Prod.snd (subnetMembers isGroup cidrOf s.kept)).lookup g.1 = some g.2)
    (hvis : ∀ n ∈ s.kept,
      (l.folding.visible.lookup n.ip).getD 0 = (s.visible.lookup n.ip).getD 0) :
    SameLevel (gs.foldl (Level.foldGroup go cfg) l)
      (((gs.map Sigma.fst).filterMap (referenceFold cfg isGroup cidrOf s)).foldl Level.fold l) := by
  induction gs generalizing l with
  | nil => exact sameLevel_equivalence.refl l
  | cons g gs ih =>
    have hg := hgs g List.mem_cons_self
    have hnodes := group_nodes hg
    have hproper : Proper r g.1 := key_proper fits (Option.isSome_of_eq_some hg)
    have ih := fun {l} hl => ih (l := l) (fun g' hg' => hgs g' (List.mem_cons_of_mem g hg')) hl
    have heff : ∀ n ∈ subnetNodes isGroup cidrOf s.kept g.1,
        effective cfg l.folding.visible n = effective cfg s.visible n := by
      intro n hn
      unfold effective
      rw [hvis n (mem_subnetNodes.mp hn).1]
    have hrel : Option.Rel SameFold (planGroup go cfg l.folding.visible g)
        (referenceFold cfg isGroup cidrOf s g.1) := planGroup_reference hnodes heff (hties g.1)
    rw [List.foldl_cons, List.map_cons]
    unfold Level.foldGroup
    cases hp : planGroup go cfg l.folding.visible g with
    | none =>
      rw [hp] at hrel
      cases hr : referenceFold cfg isGroup cidrOf s g.1 with
      | some f => rw [hr] at hrel; exact nomatch hrel
      | none =>
        rw [List.filterMap_cons_none hr]
        exact ih hvis
    | some f =>
      rw [hp] at hrel
      cases hr : referenceFold cfg isGroup cidrOf s g.1 with
      | none => rw [hr] at hrel; exact nomatch hrel
      | some f₀ =>
        rw [hr] at hrel
        have hsame : SameFold f f₀ := by cases hrel with | some h => exact h
        have hf := planGroup_foldsOf hnodes hp
        have hfresh : f.Fresh := hf.fresh fits hproper
        rw [List.filterMap_cons_some hr, List.foldl_cons]
        refine sameLevel_equivalence.trans (ih fun n hn => ?_) ?_
        · rw [Level.fold_visible hfresh, if_neg (name_above fits hproper hf hn)]
          exact hvis n hn
        · refine Reorder.foldl_congr (fun {f₁ l₁ l₂} hf₁ h => ?_)
            (Level.fold_same hsame hfresh (sameLevel_equivalence.refl l))
          obtain ⟨c₁, hc₁, hr₁⟩ := List.mem_filterMap.mp hf₁
          obtain ⟨g₁, hg₁, rfl⟩ := List.mem_map.mp hc₁
          have hp₁ : Proper r g₁.1 := key_proper fits
            (Option.isSome_of_eq_some (hgs g₁ (List.mem_cons_of_mem g hg₁)))
          exact Level.fold_same ⟨rfl, rfl, rfl, List.Perm.refl _⟩
            ((referenceFold_some hr₁).fresh fits hp₁) h

end Ranked

variable (cfg isGroup cidrOf) in
/-- The reference does not depend on the order of the nodes. -/
theorem referenceFold_same (h : SameFolding s s') (c : String) :
    Option.Rel SameFold (referenceFold cfg isGroup cidrOf s c)
      (referenceFold cfg isGroup cidrOf s' c) := by
  have hperm : (subnetNodes isGroup cidrOf s.kept c).Perm (subnetNodes isGroup cidrOf s'.kept c) :=
    h.kept.filter _
  unfold referenceFold
  simp only []
  rw [hperm.length_eq, h.toSameMaps.effective cfg]
  split
  · exact Option.Rel.none
  split
  · split
    · exact Option.Rel.none
    · refine Option.Rel.some ⟨rfl, rfl, rfl, ?_⟩
      rw [nodes_unplaced, nodes_unplaced]
      refine (hperm.filter _).trans (List.Perm.of_eq (List.filter_congr fun n _ => ?_))
      rw [Cut.ahead_perm hperm]
  · split
    · exact Option.Rel.none
    · refine Option.Rel.some ⟨rfl, rfl, rfl, ?_⟩
      rw [nodes_unplaced, nodes_unplaced]
      exact hperm

theorem splitsTie_same (h : SameFolding s s') :
    SplitsTie cfg isGroup cidrOf s c ↔ SplitsTie cfg isGroup cidrOf s' c := by
  have hperm : (subnetNodes isGroup cidrOf s.kept c).Perm (subnetNodes isGroup cidrOf s'.kept c) :=
    h.kept.filter _
  unfold SplitsTie
  rw [h.toSameMaps.effective cfg, Cut.splits_perm hperm]

/-! ## What is left of the nodes -/

/-- The places folded are those of the nodes mapped to a supernode. -/
def Level.Aligned (kept : List Node) (l : Level) : Prop :=
  ∀ m ∈ kept.zipIdx, m.2 ∈ l.collapsed ↔ (l.folding.hostToSuper.lookup m.1.ip).isSome = true

theorem Level.Aligned.foldGroup {kept : List Node} (hids : (kept.map Node.ip).Nodup)
    (hg : (groups Prod.fst Prod.snd (subnetMembers isGroup cidrOf kept)).lookup g.1 = some g.2)
    (h : l.Aligned kept) : (l.foldGroup go cfg g).Aligned kept := by
  unfold Level.foldGroup
  cases hp : planGroup go cfg l.folding.visible g with
  | none => exact h
  | some f =>
    have hmem : ∀ m ∈ f.members, m ∈ kept.zipIdx := by
      intro m hm
      have hm := (planGroup_some hp).subset m hm
      rw [lookup_groups Prod.fst Prod.snd hg] at hm
      obtain ⟨⟨c, m'⟩, hcm, rfl⟩ := List.mem_map.mp hm
      exact (mem_subnetMembers.mp (List.mem_filter.mp hcm).1).1
    have hplaces : ((kept.zipIdx).map fun m => m.1.ip).Nodup := by
      have hkept : kept.zipIdx.map Prod.fst = kept := List.zipIdx_map_fst 0 kept
      rw [← hkept, List.map_map] at hids
      exact hids
    intro m hm
    have hsame : m.2 ∈ f.members.map Prod.snd ↔ m.1.ip ∈ f.nodes.map Node.ip := by
      unfold Fold.nodes
      rw [List.map_map]
      constructor
      · intro hin
        obtain ⟨m', hm', he⟩ := List.mem_map.mp hin
        have heq := List.inj_on_of_nodup_map (zipIdx_nodup kept) (hmem m' hm') hm he
        exact heq ▸ List.mem_map_of_mem hm'
      · intro hin
        obtain ⟨m', hm', he⟩ := List.mem_map.mp hin
        have heq := List.inj_on_of_nodup_map hplaces (hmem m' hm') hm he
        exact heq ▸ List.mem_map_of_mem hm'
    have hcollapsed : (l.fold f).collapsed = l.collapsed ++ f.members.map Prod.snd := rfl
    rw [hcollapsed, List.mem_append, Level.fold_hostToSuper, hsame, h m hm]
    by_cases hin : m.1.ip ∈ f.nodes.map Node.ip
    · simp [hin]
    · simp [hin]

/-- The nodes after a level, in terms of the map of supernodes. -/
theorem leftover {kept : List Node} (h : l.Aligned kept) :
    (kept.zipIdx.filter fun m => m.2 ∉ l.collapsed).map Prod.fst
      = kept.filter fun n => (l.folding.hostToSuper.lookup n.ip).isNone := by
  have hkept : kept.zipIdx.map Prod.fst = kept := List.zipIdx_map_fst 0 kept
  conv_rhs => rw [← hkept]
  rw [List.filter_map]
  refine congrArg _ (List.filter_congr fun m hm => ?_)
  rw [Bool.eq_iff_iff, decide_eq_true_eq, h m hm, Function.comp_apply, Option.isNone_iff_eq_none]
  exact Option.not_isSome_iff_eq_none

section Whole

variable {hosts : List Node} {full : Node → Prop} {r : Nat}

/-- The groups of a level by key. -/
theorem mem_group_keys {kept : List Node} :
    ((groups Prod.fst Prod.snd (subnetMembers isGroup cidrOf kept)).lookup c).isSome
      ↔ ∃ n, n ∈ subnetNodes isGroup cidrOf kept c := by
  rw [isSome_lookup_groups]
  constructor
  · rintro ⟨⟨c', m⟩, hcm, rfl⟩
    obtain ⟨hm, hgrp, hcidr, hne⟩ := mem_subnetMembers.mp hcm
    exact ⟨m.1, mem_subnetNodes.mpr ⟨mem_kept_of_zipIdx hm, hgrp, hcidr, hne⟩⟩
  · rintro ⟨n, hn⟩
    obtain ⟨hk, hgrp, hcidr, hne⟩ := mem_subnetNodes.mp hn
    obtain ⟨i, hi⟩ := List.getElem?_of_mem hk
    exact ⟨(c, (n, i)), mem_subnetMembers.mpr
      ⟨List.mk_mem_zipIdx_iff_getElem?.mpr hi, hgrp, hcidr, hne⟩, rfl⟩

variable (isGroup cidrOf) in
theorem group_keys_perm (go go' : Runtime) {kept kept' : List Node} (h : kept.Perm kept') :
    ((go.rangeOf (groups Prod.fst Prod.snd (subnetMembers isGroup cidrOf kept))).map Sigma.fst).Perm
      ((go'.rangeOf (groups Prod.fst Prod.snd
        (subnetMembers isGroup cidrOf kept'))).map Sigma.fst) := by
  have hkeys : ∀ (go : Runtime) (kept : List Node), ((go.rangeOf (groups Prod.fst Prod.snd
      (subnetMembers isGroup cidrOf kept))).map Sigma.fst).Perm
      (groups Prod.fst Prod.snd (subnetMembers isGroup cidrOf kept)).keys :=
    fun go kept => (go.rangeOf_perm _).map Sigma.fst
  refine (hkeys go kept).trans (List.Perm.trans ?_ (hkeys go' kept').symm)
  refine (List.perm_ext_iff_of_nodup (AList.keys_nodup _) (AList.keys_nodup _)).mpr fun c => ?_
  rw [← AList.mem_keys, ← AList.mem_keys, ← AList.lookup_isSome, ← AList.lookup_isSome,
    mem_group_keys, mem_group_keys]
  exact exists_congr fun n => (h.filter _).mem_iff

theorem Fits.perm {kept kept' : List Node} (h : Fits hosts full r cfg isGroup cidrOf kept)
    (hp : kept.Perm kept') : Fits hosts full r cfg isGroup cidrOf kept' :=
  ⟨h.pos, fun n hn => h.proper n (hp.mem_iff.mpr hn),
    fun c id hid => h.clear c id
      ((hp.filter fun n => !isGroup n && decide (cidrOf n = c ∧ c ≠ "")).length_eq ▸ hid),
    fun n hn => h.low n (hp.mem_iff.mpr hn), fun n hn => h.shown n (hp.mem_iff.mpr hn)⟩

/-- The level in progress is the same as the reference, from the start. -/
theorem level_reference (go : Runtime) (fits : Fits hosts full r cfg isGroup cidrOf s.kept)
    (hties : ∀ c, ¬ SplitsTie cfg isGroup cidrOf s c) :
    SameLevel ((go.rangeOf (groups Prod.fst Prod.snd (subnetMembers isGroup cidrOf s.kept))).foldl
        (Level.foldGroup go cfg) { folding := s })
      ((((go.rangeOf (groups Prod.fst Prod.snd (subnetMembers isGroup cidrOf s.kept))).map
        Sigma.fst).filterMap (referenceFold cfg isGroup cidrOf s)).foldl Level.fold
          { folding := s }) :=
  foldl_reference fits hties (fun _ hg => (go.mem_rangeOf).mp hg) fun _ _ => rfl

/-- The nodes after a level: the supernodes, and what is mapped to none. -/
theorem collapseLevel_kept (go : Runtime) (hids : (s.kept.map Node.ip).Nodup)
    (hroots : ∀ n ∈ s.kept, s.hostToSuper.lookup n.ip = none) :
    (collapseLevel go cfg isGroup cidrOf s).kept
      = ((go.rangeOf (groups Prod.fst Prod.snd (subnetMembers isGroup cidrOf s.kept))).foldl
          (Level.foldGroup go cfg) { folding := s }).supers
        ++ s.kept.filter fun n =>
          ((collapseLevel go cfg isGroup cidrOf s).hostToSuper.lookup n.ip).isNone := by
  have haligned : ∀ {gs : List (Sigma fun _ : String => List Member)} {l : Level}, (∀ g ∈ gs,
      (groups Prod.fst Prod.snd (subnetMembers isGroup cidrOf s.kept)).lookup g.1 = some g.2) →
      l.Aligned s.kept → (gs.foldl (Level.foldGroup go cfg) l).Aligned s.kept := by
    intro gs
    induction gs with
    | nil => exact fun _ h => h
    | cons g gs ih =>
      intro l hgs h
      exact ih (fun g' hg' => hgs g' (List.mem_cons_of_mem g hg'))
        (h.foldGroup hids (hgs g List.mem_cons_self))
  have hstart : ({ folding := s } : Level).Aligned s.kept := by
    intro m hm
    have hnone := hroots m.1 (mem_kept_of_zipIdx hm)
    constructor
    · exact fun h => absurd h List.not_mem_nil
    · intro h
      rw [hnone] at h
      exact absurd h Bool.false_ne_true
  have h := leftover (haligned (fun g hg => (go.mem_rangeOf).mp hg) hstart)
  unfold collapseLevel
  exact congrArg _ h

/-- The reference of a level is the same for every order of its subnets and its nodes. -/
theorem reference_same (fits : Fits hosts full r cfg isGroup cidrOf s.kept)
    (hids : (s.kept.map Node.ip).Nodup) {keys keys' : List String} (hnd : keys.Nodup)
    (hproper : ∀ c ∈ keys, Proper r c) (hkeys : keys.Perm keys') (h : SameFolding s s') :
    SameLevel ((keys.filterMap (referenceFold cfg isGroup cidrOf s)).foldl Level.fold
        { folding := s })
      ((keys'.filterMap (referenceFold cfg isGroup cidrOf s')).foldl Level.fold
        { folding := s' }) := by
  have hfresh : ∀ f ∈ keys.filterMap (referenceFold cfg isGroup cidrOf s), f.Fresh := by
    intro f hf
    obtain ⟨c, hc, hr⟩ := List.mem_filterMap.mp hf
    exact (referenceFold_some hr).fresh fits (hproper c hc)
  have hapart : (keys.filterMap (referenceFold cfg isGroup cidrOf s)).Pairwise Apart := by
    refine List.pairwise_filterMap.mpr (hnd.imp_of_mem fun {c c'} hc hc' hne f hf f' hf' => ?_)
    exact (referenceFold_some hf).apart fits hids (hproper c hc) (hproper c' hc') hne
      (referenceFold_some hf')
  -- the same subnets in the other order, then the same folds of the other nodes
  refine sameLevel_equivalence.trans (Reorder.foldl_perm Apart.symm sameLevel_equivalence
    (fun hf hl => Level.fold_same ⟨rfl, rfl, rfl, List.Perm.refl _⟩ hf hl) Level.fold_comm
    (hkeys.filterMap _) hfresh hapart) ?_
  refine Reorder.foldl_forall₂ (E := fun f f' => SameFold f f' ∧ f.Fresh)
    (fun hE hl => Level.fold_same hE.1 hE.2 hl) (Reorder.forall₂_filterMap fun c hc => ?_)
    ⟨h.toSameMaps, List.Perm.refl _⟩
  exact Reorder.rel_imp (referenceFold_same cfg isGroup cidrOf h c) fun f _ hr hsame =>
    ⟨hsame, (referenceFold_some hr).fresh fits (hproper c (hkeys.mem_iff.mpr hc))⟩

/-- **A level gives the same folding for every order of the nodes**, if it splits no tie. -/
theorem collapseLevel_same (go go' : Runtime) (fits : Fits hosts full r cfg isGroup cidrOf s.kept)
    (hids : (s.kept.map Node.ip).Nodup) (hroots : ∀ n ∈ s.kept, s.hostToSuper.lookup n.ip = none)
    (hties : ∀ c, ¬ SplitsTie cfg isGroup cidrOf s c) (h : SameFolding s s') :
    SameFolding (collapseLevel go cfg isGroup cidrOf s)
        (collapseLevel go' cfg isGroup cidrOf s') := by
  have hkeys := group_keys_perm isGroup cidrOf go go' h.kept
  have hnd : ((go.rangeOf (groups Prod.fst Prod.snd
      (subnetMembers isGroup cidrOf s.kept))).map Sigma.fst).Nodup :=
    (((go.rangeOf_perm _).map Sigma.fst).nodup_iff).mpr (AList.keys_nodup _)
  have hproper : ∀ c ∈ (go.rangeOf (groups Prod.fst Prod.snd
      (subnetMembers isGroup cidrOf s.kept))).map Sigma.fst, Proper r c := by
    intro c hc
    obtain ⟨g, hg, rfl⟩ := List.mem_map.mp hc
    exact key_proper fits (Option.isSome_of_eq_some ((go.mem_rangeOf).mp hg))
  have hlevel := sameLevel_equivalence.trans (level_reference go fits hties)
    (sameLevel_equivalence.trans (reference_same fits hids hnd hproper hkeys h)
      (sameLevel_equivalence.symm (level_reference go' (fits.perm h.kept)
        fun c hc => hties c ((splitsTie_same h).mpr hc))))
  have hids' : (s'.kept.map Node.ip).Nodup := ((h.kept.map Node.ip).nodup_iff).mp hids
  have hroots' : ∀ n ∈ s'.kept, s'.hostToSuper.lookup n.ip = none := by
    intro n hn
    rw [← h.hostToSuper]
    exact hroots n (h.kept.mem_iff.mpr hn)
  have hmaps : SameMaps (collapseLevel go cfg isGroup cidrOf s)
      (collapseLevel go' cfg isGroup cidrOf s') :=
    ⟨hlevel.maps.visible, hlevel.maps.hostToSuper, hlevel.maps.superHosts, hlevel.maps.tailSupers⟩
  refine ⟨hmaps, ?_⟩
  rw [collapseLevel_kept go hids hroots, collapseLevel_kept go' hids' hroots']
  refine hlevel.supers.append ?_
  refine (h.kept.filter _).trans (List.Perm.of_eq (List.filter_congr fun n _ => ?_))
  rw [hmaps.hostToSuper]

end Whole

end Reference

end Etherchimp
