import Etherchimp.Proof.Partition

/-!
# A level of folding keeps the partition

A level folds its groups one by one, in any order; each plan takes members no other
plan takes and names its supernode as no other does. So a level keeps the partition.
Which supernode a subnet gets is settled by how many nodes it has.
-/

namespace Etherchimp

open Chains Grouping

/-! ## The nodes of a subnet -/

/-- The nodes of a subnet that may be folded. -/
def subnetNodes (isGroup : Node → Bool) (cidrOf : Node → String) (kept : List Node) (c : String) :
    List Node :=
  kept.filter fun n => !isGroup n && decide (cidrOf n = c ∧ c ≠ "")

/-- The supernode a subnet of so many nodes is given: none, one for its tail, or one for all. -/
def superIDOf (cfg : ViewConfig) (cidr : String) (count : Nat) : Option String :=
  if cfg.isFullExpand cidr then none
  else if cfg.isExpanded cidr then
    if count ≤ cfg.budget then none else some (residualSuperID cidr)
  else if count < minHostsToCollapse then none
  else some cidr

theorem superIDOf_name {cfg : ViewConfig} {cidr id : String} {count : Nat}
    (h : superIDOf cfg cidr count = some id) : id = cidr ∨ id = residualSuperID cidr := by
  unfold superIDOf at h
  split at h
  · exact absurd h nofun
  · split at h
    · split at h
      · exact absurd h nofun
      · exact .inr (Option.some.inj h).symm
    · split at h
      · exact absurd h nofun
      · exact .inl (Option.some.inj h).symm

/-- A subnet given a supernode is not opened in full; if not opened at all, it has enough nodes. -/
theorem superIDOf_some {cfg : ViewConfig} {cidr id : String} {count : Nat}
    (h : superIDOf cfg cidr count = some id) :
    cfg.isFullExpand cidr = false ∧ (cfg.isExpanded cidr = false → minHostsToCollapse ≤ count) := by
  unfold superIDOf at h
  split at h
  · exact absurd h nofun
  · rename_i hfull
    refine ⟨Bool.eq_false_iff.mpr hfull, fun hexp => ?_⟩
    rw [hexp, if_neg Bool.false_ne_true] at h
    split at h
    · exact absurd h nofun
    · rename_i hlen
      exact Nat.not_lt.mp hlen

/-- By how many nodes the subnet is shown then. -/
def nodesLeft (cfg : ViewConfig) (cidr : String) (count : Nat) : Nat :=
  if (superIDOf cfg cidr count).isNone then count
  else if cfg.isExpanded cidr then cfg.budget + 1
  else 1

theorem superIDOf_zero (cfg : ViewConfig) (cidr : String) : superIDOf cfg cidr 0 = none := by
  unfold superIDOf
  rw [if_pos (Nat.zero_le _), if_pos (by decide : 0 < minHostsToCollapse)]
  simp only [ite_self]

/-! ## Folding one level -/

section Level

variable {hosts : List Node} {full : Node → Prop} {r : Nat} {go : Runtime} {cfg : ViewConfig}
  {isGroup : Node → Bool} {cidrOf : Node → String} {kept : List Node}

theorem mem_subnetMembers {c : String} {m : Member} :
    (c, m) ∈ subnetMembers isGroup cidrOf kept
      ↔ m ∈ kept.zipIdx ∧ isGroup m.1 = false ∧ cidrOf m.1 = c ∧ c ≠ "" := by
  unfold subnetMembers
  rw [List.mem_filterMap]
  constructor
  · rintro ⟨m', hm', he⟩
    by_cases hg : isGroup m'.1 = true
    · rw [if_pos hg] at he
      exact absurd he nofun
    · rw [if_neg hg] at he
      by_cases hc : cidrOf m'.1 = ""
      · simp only [hc, if_true] at he
        exact absurd he nofun
      · simp only [hc, if_false, Option.some.injEq, Prod.mk.injEq] at he
        obtain ⟨rfl, rfl⟩ := he
        exact ⟨hm', Bool.eq_false_iff.mpr hg, rfl, hc⟩
  · rintro ⟨hm, hg, rfl, hc⟩
    exact ⟨m, hm, by simp [hg, hc]⟩

/-- A member stands at its place in the list. -/
theorem mem_kept_of_zipIdx {m : Member} (hm : m ∈ kept.zipIdx) : m.1 ∈ kept :=
  List.mem_of_getElem? (List.mk_mem_zipIdx_iff_getElem?.mp hm)

theorem zipIdx_nodup (l : List Node) : (l.zipIdx.map Prod.snd).Nodup := by
  rw [List.zipIdx_map_snd]
  exact List.nodup_range'

theorem subnetMembers_places :
    (subnetMembers isGroup cidrOf kept).Pairwise fun a b => a.2.2 ≠ b.2.2 := by
  unfold subnetMembers
  rw [List.pairwise_filterMap]
  have hpl := List.pairwise_map.mp (zipIdx_nodup kept)
  refine hpl.imp fun {a b} hab c hc d hd => ?_
  have key : ∀ {m : Member} {x : String × Member},
      (if isGroup m.1 = true then none
        else if cidrOf m.1 = "" then none else some (cidrOf m.1, m)) = some x → x.2 = m := by
    intro m x hx
    split at hx
    · exact absurd hx nofun
    · split at hx
      · exact absurd hx nofun
      · rw [← Option.some.inj hx]
  rw [key hc, key hd]
  exact hab

theorem mem_subnetNodes {n : Node} {c : String} :
    n ∈ subnetNodes isGroup cidrOf kept c ↔ n ∈ kept ∧ isGroup n = false ∧ cidrOf n = c ∧ c ≠ "" :=
        by
  unfold subnetNodes
  rw [List.mem_filter, Bool.and_eq_true, Bool.not_eq_true', decide_eq_true_eq]

/-- The group of a subnet has its nodes, in order. -/
theorem group_nodes {g : Sigma fun _ : String => List Member} (hg :
    (groups Prod.fst Prod.snd (subnetMembers isGroup cidrOf kept)).lookup g.1 = some g.2) :
    g.2.map Prod.fst = subnetNodes isGroup cidrOf kept g.1 := by
  rw [lookup_groups Prod.fst Prod.snd hg]
  unfold subnetNodes subnetMembers
  have hkept : kept.zipIdx.map Prod.fst = kept := List.zipIdx_map_fst 0 kept
  conv_rhs => rw [← hkept]
  induction kept.zipIdx with
  | nil => rfl
  | cons m ms ih =>
    rw [List.map_cons]
    by_cases hskip : isGroup m.1 = true ∨ cidrOf m.1 = ""
    · rw [List.filterMap_cons_none, ih, List.filter_cons_of_neg]
      · rw [Bool.and_eq_true, Bool.not_eq_true', decide_eq_true_eq]
        rintro ⟨hgrp, hk, hne⟩
        rcases hskip with h | h
        · exact absurd (hgrp.symm.trans h) Bool.false_ne_true
        · exact hne (hk.symm.trans h)
      · rcases hskip with h | h
        · exact if_pos h
        · split
          · rfl
          · exact if_pos h
    · rw [not_or, Bool.not_eq_true] at hskip
      obtain ⟨hgrp, hc⟩ := hskip
      rw [List.filterMap_cons_some (b := (cidrOf m.1, m))]
      · by_cases hk : cidrOf m.1 = g.1
        · rw [List.filter_cons_of_pos, List.map_cons, List.map_cons, ih, List.filter_cons_of_pos]
          · rw [Bool.and_eq_true, Bool.not_eq_true', decide_eq_true_eq]
            exact ⟨hgrp, hk, hk ▸ hc⟩
          · exact decide_eq_true hk
        · rw [List.filter_cons_of_neg, ih, List.filter_cons_of_neg]
          · rw [Bool.and_eq_true, decide_eq_true_eq]
            exact fun h => hk h.2.1
          · exact fun h => hk (of_decide_eq_true h)
      · rw [hgrp]
        exact if_neg hc

/-- What a plan folds: some of the group, into the supernode the subnet is given. -/
structure Plans (cfg : ViewConfig) (g : Sigma fun _ : String => List Member) (f : Fold) : Prop where
  superID : superIDOf cfg g.1 g.2.length = some f.superID
  cidr : f.cidr = g.1
  /-- A subnet that is not opened is folded whole. -/
  whole : cfg.isExpanded g.1 = false →
    f = { superID := g.1, cidr := g.1, isTail := false, members := g.2 }
  left : f.members.length + nodesLeft cfg g.1 g.2.length = g.2.length + 1
  closed : cfg.isFullExpand g.1 = false
  subset : ∀ m ∈ f.members, m ∈ g.2
  places : (g.2.map Prod.snd).Nodup → (f.members.map Prod.snd).Nodup
  nonempty : f.members ≠ []

theorem planGroup_some {visible : KeyedMap String Nat} {g : Sigma fun _ : String => List Member}
    {f : Fold} (h : planGroup go cfg visible g = some f) : Plans cfg g f := by
  obtain ⟨c, idxs⟩ := g
  unfold planGroup at h
  simp only [] at h
  by_cases hfull : cfg.isFullExpand c = true
  · rw [if_pos hfull] at h
    exact absurd h nofun
  rw [if_neg hfull] at h
  by_cases hexp : cfg.isExpanded c = true
  · rw [if_pos hexp] at h
    by_cases hlen : idxs.length ≤ cfg.budget
    · rw [if_pos hlen] at h
      exact absurd h nofun
    rw [if_neg hlen, Option.some.injEq] at h
    subst h
    have hid : superIDOf cfg c idxs.length = some (residualSuperID c) := by
      unfold superIDOf
      rw [if_neg hfull, if_pos hexp, if_neg hlen]
    -- the tail of the sorted group
    refine ⟨hid, rfl, fun h => absurd (hexp.symm.trans h) nofun, ?_, Bool.eq_false_iff.mpr hfull,
      fun m hm => ?_, fun hnd => ?_, fun he => ?_⟩
    · unfold nodesLeft
      simp only [hid, hexp, Option.isNone_some, if_true, List.length_drop,
        Runtime.length_sortSlice, Bool.false_eq_true, if_false]
      omega
    · exact (Runtime.mem_sortSlice go).mp (List.mem_of_mem_drop hm)
    · have hperm := (go.sortSlice_perm (fun a b : Member =>
        decide (effective cfg visible b.1 < effective cfg visible a.1)) idxs).map Prod.snd
      exact ((hperm.nodup_iff.mpr hnd).sublist ((List.drop_sublist _ _).map Prod.snd))
    · have hl := congrArg List.length he
      simp only [List.length_drop, Runtime.length_sortSlice, List.length_nil] at hl
      omega
  rw [if_neg hexp] at h
  by_cases hlen : idxs.length < minHostsToCollapse
  · rw [if_pos hlen] at h
    exact absurd h nofun
  rw [if_neg hlen, Option.some.injEq] at h
  subst h
  have hid : superIDOf cfg c idxs.length = some c := by
    unfold superIDOf
    rw [if_neg hfull, if_neg hexp, if_neg hlen]
  refine ⟨hid, rfl, fun _ => rfl, ?_, Bool.eq_false_iff.mpr hfull, fun m hm => hm, id,
    fun he => hlen ?_⟩
  · unfold nodesLeft
    simp only [hid, hexp, Option.isNone_some, Bool.false_eq_true, if_false]
  · simp only at he
    rw [he]
    decide

/-- A group is left alone when its subnet is given no supernode. -/
theorem planGroup_none {visible : KeyedMap String Nat} {g : Sigma fun _ : String => List Member}
    (h : planGroup go cfg visible g = none) : superIDOf cfg g.1 g.2.length = none := by
  obtain ⟨c, idxs⟩ := g
  unfold planGroup at h
  unfold superIDOf
  simp only [] at h ⊢
  by_cases hfull : cfg.isFullExpand c = true
  · rw [if_pos hfull]
  rw [if_neg hfull] at h ⊢
  by_cases hexp : cfg.isExpanded c = true
  · rw [if_pos hexp] at h ⊢
    by_cases hlen : idxs.length ≤ cfg.budget
    · rw [if_pos hlen]
    · rw [if_neg hlen] at h
      exact absurd h nofun
  · rw [if_neg hexp] at h ⊢
    by_cases hlen : idxs.length < minHostsToCollapse
    · rw [if_pos hlen]
    · rw [if_neg hlen] at h
      exact absurd h nofun

theorem Plans.name {g : Sigma fun _ : String => List Member} {f : Fold} (h : Plans cfg g f) :
    f.superID = g.1 ∨ f.superID = residualSuperID g.1 := superIDOf_name h.superID

/-- The kept nodes of a level in progress. -/
def Level.current (l : Level) (kept : List Node) : Folding :=
  { l.folding with
    kept := l.supers ++ (kept.zipIdx.filter fun m => m.2 ∉ l.collapsed).map Prod.fst }

/-- Members in distinct places split a list. -/
theorem perm_members {members l : List Member} (hl : (l.map Prod.snd).Nodup)
    (hm : (members.map Prod.snd).Nodup) (hsub : ∀ m ∈ members, m ∈ l) :
    l.Perm (members ++ l.filter fun m => m.2 ∉ members.map Prod.snd) := by
  have hin : (l.filter fun m => m.2 ∈ members.map Prod.snd).Perm members := by
    refine (List.perm_ext_iff_of_nodup ((List.Nodup.of_map _ hl).filter _)
      (List.Nodup.of_map _ hm)).mpr fun m => ?_
    rw [List.mem_filter, decide_eq_true_eq]
    constructor
    · rintro ⟨hml, hplace⟩
      obtain ⟨m', hm', he⟩ := List.mem_map.mp hplace
      rwa [List.inj_on_of_nodup_map hl hml (hsub m' hm') he.symm]
    · exact fun h => ⟨hsub m h, List.mem_map_of_mem h⟩
  have hsplit := List.filter_append_perm (fun m : Member => decide (m.2 ∈ members.map Prod.snd)) l
  refine hsplit.symm.trans ((hin.append_right _).trans (List.Perm.of_eq ?_))
  congr 1
  refine List.filter_congr fun m _ => ?_
  rw [decide_not]

/-- Folding a plan whose members are still there. -/
theorem Level.fold_folds {l : Level} {f : Fold} (hf : (f.members.map Prod.snd).Nodup)
    (hsub : ∀ m ∈ f.members, m ∈ kept.zipIdx) (hleft : ∀ m ∈ f.members, m.2 ∉ l.collapsed)
    (hne : f.members ≠ []) (hrank : superRank hosts f.superID = r)
    (hlow : ∀ m ∈ f.members, superRank hosts m.1.ip < r)
    (hfresh : f.superID ∉ (l.current kept).kept.map Node.ip) :
    Folds hosts r (l.current kept) ((l.fold f).current kept) f
      (l.supers ++ (kept.zipIdx.filter fun m => m.2 ∉ (l.fold f).collapsed).map Prod.fst) := by
  have hfilter : (kept.zipIdx.filter fun m => m.2 ∉ (l.fold f).collapsed)
      = (kept.zipIdx.filter fun m => m.2 ∉ l.collapsed).filter
        fun m => m.2 ∉ f.members.map Prod.snd := by
    rw [List.filter_filter]
    refine List.filter_congr fun m _ => ?_
    simp only [Level.fold, List.mem_append, not_or, Bool.decide_and, Bool.and_comm]
  have hperm := perm_members ((zipIdx_nodup kept).sublist (List.filter_sublist.map Prod.snd)) hf
    fun m hm => List.mem_filter.mpr ⟨hsub m hm, decide_eq_true (hleft m hm)⟩
  refine
    { kept := ?_, kept' := ?_, map := rfl, counts := rfl, nonempty := hne, rank := hrank,
      below := hlow, fresh := hfresh }
  · rw [hfilter]
    refine ((hperm.map Prod.fst).append_left l.supers).trans ?_
    rw [List.map_append, ← List.append_assoc, ← List.append_assoc]
    exact List.perm_append_comm.append_right _
  · have hk : ((l.fold f).current kept).kept = (l.supers ++ [f.superNode])
        ++ (kept.zipIdx.filter fun m => m.2 ∉ (l.fold f).collapsed).map Prod.fst := rfl
    rw [hk, List.append_assoc]
    exact List.perm_middle

/-- A level in progress: the partition holds, and only the groups done have been touched. -/
structure LevelInv (hosts : List Node) (full : Node → Prop) (r : Nat) (isGroup : Node → Bool)
    (cidrOf : Node → String) (kept : List Node) (done : List String) (l : Level) : Prop where
  part : ∃ content, Partition hosts full r (l.current kept) content
  collapsed : ∀ i ∈ l.collapsed, ∃ c ∈ done, ∃ m, (c,
      m) ∈ subnetMembers isGroup cidrOf kept ∧ m.2 = i
  supers : ∀ k ∈ l.supers, ∃ c ∈ done, Proper r c ∧ (k.ip = c ∨ k.ip = residualSuperID c)

/-- What a level's choice of subnets must respect. -/
structure Fits (hosts : List Node) (full : Node → Prop) (r : Nat) (cfg : ViewConfig)
    (isGroup : Node → Bool) (cidrOf : Node → String) (kept : List Node) : Prop where
  pos : 0 < r
  proper : ∀ n ∈ kept, cidrOf n ≠ "" → Proper r (cidrOf n)
  /-- No supernode is named like a host. -/
  clear : ∀ c id, superIDOf cfg c (subnetNodes isGroup cidrOf kept c).length = some id →
    id ∉ hosts.map Node.ip
  low : ∀ n ∈ kept, superRank hosts n.ip < r
  shown : ∀ n ∈ kept, n ∈ hosts → full n → cidrOf n = "" ∨ cfg.isFullExpand (cidrOf n) = true

variable (fits : Fits hosts full r cfg isGroup cidrOf kept) (hids :
    (hosts.map Node.ip).Nodup) {done : List String}
  {l : Level} {g : Sigma fun _ : String => List Member}

theorem Proper.name_rank {c name : String} (hc : Proper r c)
    (hname : name = c ∨ name = residualSuperID c) : nameRank name = r := by
  rcases hname with rfl | rfl
  · exact hc.rank
  · exact hc.tail

/-- Names of different groups, or of a group and a tail, differ. -/
theorem names_ne {c c' name name' : String} (hc : Proper r c) (hc' : Proper r c') (hne : c ≠ c')
    (hname : name = c ∨ name = residualSuperID c)
        (hname' : name' = c' ∨ name' = residualSuperID c') :
    name ≠ name' := by
  rintro rfl
  rcases hname with rfl | rfl <;> rcases hname' with h | h
  · exact hne h
  · exact hc.ne_tail h
  · exact hc'.ne_tail h.symm
  · exact hne (residualSuperID_inj h)

include fits hids in
/-- Working off one more group. -/
theorem LevelInv.step (h : LevelInv hosts full r isGroup cidrOf kept done l)
    (hg : (groups Prod.fst Prod.snd (subnetMembers isGroup cidrOf kept)).lookup g.1 = some g.2)
    (hnew : g.1 ∉ done) :
    LevelInv hosts full r isGroup cidrOf kept (done ++ [g.1]) (l.foldGroup go cfg g) := by
  unfold Level.foldGroup
  cases hp : planGroup go cfg l.folding.visible g with
  | none =>
    exact ⟨h.part, fun i hi => (h.collapsed i hi).imp fun c hc => ⟨List.mem_append_left _ hc.1,
      hc.2⟩,
      fun k hk => (h.supers k hk).imp fun c hc => ⟨List.mem_append_left _ hc.1, hc.2⟩⟩
  | some f =>
    have plan := planGroup_some hp
    have hmembers := lookup_groups Prod.fst Prod.snd hg
    have hmem : ∀ m ∈ g.2, (g.1, m) ∈ subnetMembers isGroup cidrOf kept := by
      intro m hm
      rw [hmembers] at hm
      obtain ⟨⟨c, m'⟩, hcm, rfl⟩ := List.mem_map.mp hm
      obtain ⟨hin, hc⟩ := List.mem_filter.mp hcm
      rw [← of_decide_eq_true hc]
      exact hin
    have hplaces : (g.2.map Prod.snd).Nodup := by
      rw [hmembers, List.map_map]
      exact List.pairwise_map.mpr (subnetMembers_places.sublist List.filter_sublist)
    -- a member of this group is in no group done before
    have hleft : ∀ m ∈ f.members, m.2 ∉ l.collapsed := by
      intro m hm hin
      obtain ⟨c, hc, m', hcm', he⟩ := h.collapsed m.2 hin
      have hin' := mem_subnetMembers.mp hcm'
      have hin := mem_subnetMembers.mp (hmem m (plan.subset m hm))
      have heq : m' = m := List.inj_on_of_nodup_map (zipIdx_nodup kept) hin'.1 hin.1 he
      rw [heq, hin.2.2.1] at hin'
      exact hnew (hin'.2.2.1 ▸ hc)
    have hkept : ∀ m ∈ f.members, m.1 ∈ kept ∧ cidrOf m.1 = g.1 ∧ g.1 ≠ "" := by
      intro m hm
      have hin := mem_subnetMembers.mp (hmem m (plan.subset m hm))
      exact ⟨mem_kept_of_zipIdx hin.1, hin.2.2.1, hin.2.2.2⟩
    have hproper : Proper r g.1 := by
      obtain ⟨m, rest, hm⟩ := List.exists_cons_of_ne_nil plan.nonempty
      obtain ⟨hk, hc, hne⟩ := hkept m (hm ▸ List.mem_cons_self)
      exact hc ▸ fits.proper m.1 hk (hc.symm ▸ hne)
    have hcount : (subnetNodes isGroup cidrOf kept g.1).length = g.2.length := by
      rw [← group_nodes hg, List.length_map]
    have hrank : superRank hosts f.superID = r := by
      rw [superRank_name (fits.clear g.1 f.superID (hcount ▸ plan.superID))]
      exact hproper.name_rank plan.name
    have hfresh : f.superID ∉ (l.current kept).kept.map Node.ip := by
      intro hin
      obtain ⟨k, hk, he⟩ := List.mem_map.mp hin
      rcases List.mem_append.mp hk with hk | hk
      · obtain ⟨c, hc, hpc, hn⟩ := h.supers k hk
        have hcne : c ≠ g.1 := fun hcg => hnew (hcg ▸ hc)
        exact names_ne hpc hproper hcne hn plan.name he
      · obtain ⟨m, hm, rfl⟩ := List.mem_map.mp hk
        have := fits.low m.1 (mem_kept_of_zipIdx (List.mem_filter.mp hm).1)
        rw [he, hrank] at this
        exact absurd this (Nat.lt_irrefl r)
    obtain ⟨content, hpart⟩ := h.part
    have hfolds : Folds hosts r (l.current kept) ((l.fold f).current kept) f _ :=
      Level.fold_folds (plan.places hplaces)
        (fun m hm => (mem_subnetMembers.mp (hmem m (plan.subset m hm))).1) hleft plan.nonempty hrank
        (fun m hm => fits.low m.1 (hkept m hm).1) hfresh
    refine ⟨⟨_, hpart.fold hfolds fits.pos hids fun m hm hhost hfull => ?_⟩, fun i hi => ?_,
      fun k hk => ?_⟩
    · obtain ⟨hk, hc, hne⟩ := hkept m hm
      rcases fits.shown m.1 hk hhost hfull with h0 | h1
      · exact hne (hc ▸ h0)
      · rw [hc, plan.closed] at h1
        exact absurd h1 Bool.false_ne_true
    · rcases List.mem_append.mp hi with hi | hi
      · exact (h.collapsed i hi).imp fun c hc => ⟨List.mem_append_left _ hc.1, hc.2⟩
      · obtain ⟨m, hm, rfl⟩ := List.mem_map.mp hi
        exact ⟨g.1, List.mem_append_right _ (List.mem_singleton.mpr rfl), m,
          hmem m (plan.subset m hm), rfl⟩
    · rcases List.mem_append.mp hk with hk | hk
      · exact (h.supers k hk).imp fun c hc => ⟨List.mem_append_left _ hc.1, hc.2⟩
      · rw [List.mem_singleton.mp hk]
        exact ⟨g.1, List.mem_append_right _ (List.mem_singleton.mpr rfl), hproper, plan.name⟩

include fits hids in
theorem LevelInv.foldl (gs : List (Sigma fun _ : String => List Member))
    (hgs : ∀ g ∈ gs,
      (groups Prod.fst Prod.snd (subnetMembers isGroup cidrOf kept)).lookup g.1 = some g.2)
    (hnd : (done ++ gs.map Sigma.fst).Nodup)
    (h : LevelInv hosts full r isGroup cidrOf kept done l) :
    LevelInv hosts full r isGroup cidrOf kept (done ++ gs.map Sigma.fst)
      (gs.foldl (Level.foldGroup go cfg) l) := by
  induction gs generalizing done l with
  | nil => simpa using h
  | cons g gs ih =>
    rw [List.map_cons, List.append_cons] at hnd ⊢
    have hnew : g.1 ∉ done := by
      have hd := (List.nodup_append'.mp (List.nodup_append'.mp hnd).1).2.2
      exact fun hin => hd hin (List.mem_singleton.mpr rfl)
    exact ih (fun g' hg' => hgs g' (List.mem_cons_of_mem _ hg')) hnd
      (h.step fits hids (hgs g List.mem_cons_self) hnew)

variable (go isGroup) in
/-- **Folding one level keeps a partition.** -/
theorem Partition.collapseLevel {s : Folding} {content : String → List Node}
    (fits : Fits hosts full r cfg isGroup cidrOf s.kept) (hids : (hosts.map Node.ip).Nodup)
    (h : Partition hosts full r s content) :
    ∃ content, Partition hosts full r (collapseLevel go cfg isGroup cidrOf s) content := by
  have hstart : (({ folding := s } : Level).current s.kept) = s := by
    unfold Level.current
    have hk : (s.kept.zipIdx.filter fun m => m.2 ∉ ([] : List Nat)).map Prod.fst = s.kept := by
      simp
    simp only [List.nil_append, hk]
  have h0 : LevelInv hosts full r isGroup cidrOf s.kept [] { folding := s } :=
    ⟨⟨content, by rw [hstart]; exact h⟩, fun i hi => absurd hi List.not_mem_nil,
      fun k hk => absurd hk List.not_mem_nil⟩
  have hperm := go.rangeOf_perm (groups Prod.fst Prod.snd (subnetMembers isGroup cidrOf s.kept))
  exact (LevelInv.foldl fits hids _ (fun g hg => (go.mem_rangeOf).mp hg)
    ((hperm.map Sigma.fst).nodup_iff.mpr (AList.keys_nodup _)) h0).part

end Level

end Etherchimp
