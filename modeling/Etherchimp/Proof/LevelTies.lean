import Etherchimp.Proof.LevelOrder

/-!
# A split tie shows

When the budget of an opened subnet splits a tie, two sorts fold different nodes: a
stable one, and the one that then exchanges the two tied nodes at the cut. What a node
is mapped to tells the two outcomes apart. Where no tie is split the two sorts agree,
and so do the levels, to the order of their nodes.
-/

namespace Etherchimp

open Grouping

/-- A supernode stands behind whatever is mapped. -/
def Folding.Mapped (s : Folding) : Prop :=
  ∀ id, (s.hostToSuper.lookup id).isSome = true → s.remapped = true

section Mapped

variable {go : Runtime} {cfg : ViewConfig} {isGroup : Node → Bool} {cidrOf : Node → String}
  {s : Folding} {l : Level}

theorem Level.fold_remapped (f : Fold) : (l.fold f).folding.remapped = true := by
  unfold Folding.remapped
  rw [Bool.not_eq_true', List.isEmpty_eq_false_iff]
  intro hnil
  have hsome : ((l.fold f).folding.superHosts.lookup f.superID).isSome := by
    rw [Level.fold_superHosts, if_pos rfl]
    rfl
  rw [AList.lookup_isSome, AList.mem_keys, AList.keys, hnil] at hsome
  exact absurd hsome List.not_mem_nil

/-- Folding a group maps its nodes, and nothing that was mapped is lost. -/
theorem Level.foldGroup_mapped {g : Sigma fun _ : String => List Member} {id : String}
    (h : (l.folding.hostToSuper.lookup id).isSome = true) :
    ((l.foldGroup go cfg g).folding.hostToSuper.lookup id).isSome = true := by
  unfold Level.foldGroup
  cases planGroup go cfg l.folding.visible g with
  | none => exact h
  | some f =>
    have hl : (l.fold f).folding.hostToSuper.lookup id = _ := Level.fold_hostToSuper id
    show ((l.fold f).folding.hostToSuper.lookup id).isSome = true
    rw [hl]
    split
    · rfl
    · exact h

theorem collapseLevel_mono {id : String} (h : (s.hostToSuper.lookup id).isSome = true) :
    ((collapseLevel go cfg isGroup cidrOf s).hostToSuper.lookup id).isSome = true := by
  unfold collapseLevel
  exact foldl_keeps (P := fun l : Level => (l.folding.hostToSuper.lookup id).isSome = true)
    (fun _ _ hl => Level.foldGroup_mapped hl) _ h

theorem Folding.Mapped.collapseLevel (h : s.Mapped) :
    (collapseLevel go cfg isGroup cidrOf s).Mapped := by
  unfold Etherchimp.collapseLevel
  refine foldl_keeps (P := fun l : Level => l.folding.Mapped) (fun l g hl => ?_) _ h
  intro id hid
  unfold Level.foldGroup at hid ⊢
  cases hp : planGroup go cfg l.folding.visible g with
  | none =>
    rw [hp] at hid
    exact hl id hid
  | some f => exact Level.fold_remapped f

/-- A level maps only nodes of its subnets. -/
theorem collapseLevel_mapped_cases {id : String}
    (h : ((collapseLevel go cfg isGroup cidrOf s).hostToSuper.lookup id).isSome = true) :
    (s.hostToSuper.lookup id).isSome = true
      ∨ ∃ c, ∃ n ∈ subnetNodes isGroup cidrOf s.kept c, n.ip = id := by
  have hfold : ∀ {gs : List (Sigma fun _ : String => List Member)} {l : Level}, (∀ g ∈ gs,
      (groups Prod.fst Prod.snd (subnetMembers isGroup cidrOf s.kept)).lookup g.1 = some g.2) →
      ((gs.foldl (Level.foldGroup go cfg) l).folding.hostToSuper.lookup id).isSome = true →
      (l.folding.hostToSuper.lookup id).isSome = true
        ∨ ∃ c, ∃ n ∈ subnetNodes isGroup cidrOf s.kept c, n.ip = id := by
    intro gs
    induction gs with
    | nil => exact fun _ h => .inl h
    | cons g gs ih =>
      intro l hgs h
      rcases ih (fun g' hg' => hgs g' (List.mem_cons_of_mem g hg')) h with h | h
      · unfold Level.foldGroup at h
        cases hp : planGroup go cfg l.folding.visible g with
        | none =>
          rw [hp] at h
          exact .inl h
        | some f =>
          rw [hp] at h
          have hf := planGroup_foldsOf (group_nodes (hgs g List.mem_cons_self)) hp
          have h : ((l.fold f).folding.hostToSuper.lookup id).isSome = true := h
          rw [Level.fold_hostToSuper] at h
          split at h
          · rename_i hin
            obtain ⟨n, hn, rfl⟩ := List.mem_map.mp hin
            exact .inr ⟨g.1, n, hf.nodes n hn, rfl⟩
          · exact .inl h
      · exact .inr h
  exact hfold (fun g hg => (go.mem_rangeOf).mp hg) h

end Mapped

/-! ## Sorts that look at their list only -/

section Local

variable {go : Runtime} {cfg : ViewConfig} {isGroup : Node → Bool} {cidrOf : Node → String}
  {s : Folding} {l : Level} {hosts : List Node} {full : Node → Prop} {r : Nat}

/-- The order in which the members of an opened subnet are sorted. -/
def quieter (cfg : ViewConfig) (visible : KeyedMap String Nat) (a b : Member) : Bool :=
  effective cfg visible b.1 < effective cfg visible a.1

theorem planGroup_local (hlocal : go.Local) {visible visible' : KeyedMap String Nat}
    {g : Sigma fun _ : String => List Member}
    (h : ∀ m ∈ g.2, effective cfg visible m.1 = effective cfg visible' m.1) :
    planGroup go cfg visible g = planGroup go cfg visible' g := by
  have hsort : go.sortSlice (quieter cfg visible) g.2 = go.sortSlice (quieter cfg visible') g.2 := by
    refine hlocal fun a ha b hb => ?_
    unfold quieter
    rw [h a ha, h b hb]
  unfold planGroup
  unfold quieter at hsort
  simp only [hsort]

/-- The level folds what is planned with the counts at its start. -/
theorem foldl_planned (hlocal : go.Local) (fits : Fits hosts full r cfg isGroup cidrOf s.kept)
    {gs : List (Sigma fun _ : String => List Member)} (hgs : ∀ g ∈ gs,
      (groups Prod.fst Prod.snd (subnetMembers isGroup cidrOf s.kept)).lookup g.1 = some g.2)
    (hvis : ∀ n ∈ s.kept,
      (l.folding.visible.lookup n.ip).getD 0 = (s.visible.lookup n.ip).getD 0) :
    gs.foldl (Level.foldGroup go cfg) l
      = (gs.filterMap (planGroup go cfg s.visible)).foldl Level.fold l := by
  induction gs generalizing l with
  | nil => rfl
  | cons g gs ih =>
    have hg := hgs g List.mem_cons_self
    have hnodes := group_nodes hg
    have hproper : Proper r g.1 := key_proper fits (Option.isSome_of_eq_some hg)
    have ih := fun {l} hl => ih (l := l) (fun g' hg' => hgs g' (List.mem_cons_of_mem g hg')) hl
    have hplan : planGroup go cfg l.folding.visible g = planGroup go cfg s.visible g := by
      refine planGroup_local hlocal fun m hm => ?_
      have hm : m.1 ∈ subnetNodes isGroup cidrOf s.kept g.1 := hnodes ▸ List.mem_map_of_mem hm
      unfold effective
      rw [hvis m.1 (mem_subnetNodes.mp hm).1]
    rw [List.foldl_cons]
    unfold Level.foldGroup
    rw [hplan]
    cases hp : planGroup go cfg s.visible g with
    | none =>
      rw [List.filterMap_cons_none hp]
      exact ih hvis
    | some f =>
      have hf := planGroup_foldsOf hnodes hp
      rw [List.filterMap_cons_some hp]
      refine ih fun n hn => ?_
      have hvisf : ((l.fold f).folding.visible.lookup n.ip).getD 0 = _ :=
        Level.fold_visible (hf.fresh fits hproper) n.ip
      show ((l.fold f).folding.visible.lookup n.ip).getD 0 = _
      rw [hvisf, if_neg (name_above fits hproper hf hn)]
      exact hvis n hn

variable (isGroup) in
theorem level_planned (hlocal : go.Local) (fits : Fits hosts full r cfg isGroup cidrOf s.kept) :
    (go.rangeOf (groups Prod.fst Prod.snd (subnetMembers isGroup cidrOf s.kept))).foldl
        (Level.foldGroup go cfg) { folding := s }
      = ((go.rangeOf (groups Prod.fst Prod.snd (subnetMembers isGroup cidrOf s.kept))).filterMap
          (planGroup go cfg s.visible)).foldl Level.fold { folding := s } :=
  foldl_planned hlocal fits (fun _ hg => (go.mem_rangeOf).mp hg) fun _ _ => rfl

/-- What a list of folds maps. -/
theorem foldl_fold_mapped (fs : List Fold) (id : String) :
    ((fs.foldl Level.fold l).folding.hostToSuper.lookup id).isSome = true
      ↔ (∃ f ∈ fs, id ∈ f.nodes.map Node.ip)
        ∨ (l.folding.hostToSuper.lookup id).isSome = true := by
  induction fs generalizing l with
  | nil => simp
  | cons f fs ih =>
    rw [List.foldl_cons, ih, Level.fold_hostToSuper, List.exists_mem_cons_iff]
    by_cases hid : id ∈ f.nodes.map Node.ip
    · simp [hid]
    · simp [hid]

/-- Of a subnet's nodes a level maps those of its own plan. -/
theorem collapseLevel_mapped (hlocal : go.Local) (fits : Fits hosts full r cfg isGroup cidrOf s.kept)
    (hids : (s.kept.map Node.ip).Nodup) (hroots : ∀ n ∈ s.kept, s.hostToSuper.lookup n.ip = none)
    {g : Sigma fun _ : String => List Member} (hg :
      (groups Prod.fst Prod.snd (subnetMembers isGroup cidrOf s.kept)).lookup g.1 = some g.2)
    {n : Node} (hn : n ∈ subnetNodes isGroup cidrOf s.kept g.1) :
    ((collapseLevel go cfg isGroup cidrOf s).hostToSuper.lookup n.ip).isSome = true
      ↔ ∃ f, planGroup go cfg s.visible g = some f ∧ n ∈ f.nodes := by
  have hmap : (collapseLevel go cfg isGroup cidrOf s).hostToSuper = (((go.rangeOf (groups Prod.fst
      Prod.snd (subnetMembers isGroup cidrOf s.kept))).filterMap
        (planGroup go cfg s.visible)).foldl Level.fold { folding := s }).folding.hostToSuper := by
    rw [← level_planned isGroup hlocal fits]
    rfl
  obtain ⟨hk, -, hc, -⟩ := mem_subnetNodes.mp hn
  rw [hmap, foldl_fold_mapped]
  constructor
  · rintro (⟨f, hf, hin⟩ | h)
    · obtain ⟨g', hg', hp⟩ := List.mem_filterMap.mp hf
      have hg' := (go.mem_rangeOf).mp hg'
      obtain ⟨n', hn', he⟩ := List.mem_map.mp hin
      -- a node is of one subnet only
      obtain ⟨hk', -, hc', -⟩ := mem_subnetNodes.mp
        ((planGroup_foldsOf (group_nodes hg') hp).nodes n' hn')
      obtain rfl := List.inj_on_of_nodup_map hids hk' hk he
      have hkey : g' = g := by
        have h₁ : g'.1 = g.1 := hc'.symm.trans hc
        have h₂ : g'.2 = g.2 := Option.some.inj (hg'.symm.trans (h₁ ▸ hg))
        exact Sigma.ext h₁ (heq_of_eq h₂)
      exact ⟨f, hkey ▸ hp, hn'⟩
    · have h : (s.hostToSuper.lookup n.ip).isSome = true := h
      rw [hroots n hk] at h
      exact absurd h Bool.false_ne_true
  · rintro ⟨f, hp, hin⟩
    exact .inl ⟨f, List.mem_filterMap.mpr ⟨g, (go.mem_rangeOf).mpr hg, hp⟩, List.mem_map_of_mem hin⟩

end Local

/-! ## Two sorts -/

section Ties

variable {cfg : ViewConfig} {isGroup : Node → Bool} {cidrOf : Node → String} {s : Folding}
  {hosts : List Node} {full : Node → Prop} {r : Nat} {c : String}

theorem planGroup_tail {go : Runtime} {visible : KeyedMap String Nat} {idxs : List Member}
    (hexp : cfg.isExpanded c = true) (hfull : cfg.isFullExpand c = false)
    (hlen : cfg.budget < idxs.length) : planGroup go cfg visible ⟨c, idxs⟩
      = some
        { superID := residualSuperID c
          cidr := c
          isTail := true
          members := (go.sortSlice (quieter cfg visible) idxs).drop cfg.budget } := by
  unfold planGroup
  simp only []
  rw [hfull, if_neg Bool.false_ne_true, if_pos hexp, if_neg (Nat.not_le.mpr hlen)]
  rfl

theorem quieter_preorders (visible : KeyedMap String Nat) : Preorders (quieter cfg visible) where
  total a b := by
    unfold quieter
    simp only [decide_eq_false_iff_not]
    omega
  trans a b c hba hcb := by
    unfold quieter at hba hcb ⊢
    simp only [decide_eq_false_iff_not] at hba hcb ⊢
    omega

/-- The members of a subnet, sorted: falling counts. -/
theorem sorted_members (go : Runtime) (visible : KeyedMap String Nat) (idxs : List Member) :
    (go.sortSlice (quieter cfg visible) idxs).Pairwise fun a b =>
      effective cfg visible b.1 ≤ effective cfg visible a.1 := by
  refine (go.sortSlice_sorted (quieter_preorders visible) idxs).imp fun {a b} hab => ?_
  exact Nat.not_lt.mp (of_decide_eq_false hab)

/-- The tie of two members of one count. -/
theorem quieter_tie {visible : KeyedMap String Nat} {x y : Member} :
    (quieter cfg visible x y = false ∧ quieter cfg visible y x = false)
      ↔ effective cfg visible x.1 = effective cfg visible y.1 := by
  unfold quieter
  simp only [decide_eq_false_iff_not]
  omega

/-- A split tie, among the members of the group. -/
theorem splits_members {g : Sigma fun _ : String => List Member} (hg :
      (groups Prod.fst Prod.snd (subnetMembers isGroup cidrOf s.kept)).lookup g.1 = some g.2) :
    Cut.Splits (effective cfg s.visible) (subnetNodes isGroup cidrOf s.kept g.1) cfg.budget
      ↔ Cut.Splits (fun m : Member => effective cfg s.visible m.1) g.2 cfg.budget := by
  rw [← group_nodes hg]
  exact Cut.splits_map Prod.fst g.2

variable (fits : Fits hosts full r cfg isGroup cidrOf s.kept)

include fits

/-- **A split tie shows**: a node is mapped by one sort and by the other not. -/
theorem tie_shows (hids : (s.kept.map Node.ip).Nodup)
    (hroots : ∀ n ∈ s.kept, s.hostToSuper.lookup n.ip = none)
    (h : SplitsTie cfg isGroup cidrOf s c) : ∃ n ∈ subnetNodes isGroup cidrOf s.kept c,
      ((collapseLevel Runtime.stable cfg isGroup cidrOf s).hostToSuper.lookup n.ip).isSome = true
        ∧ (collapseLevel (Runtime.swapAt cfg.budget) cfg isGroup cidrOf s).hostToSuper.lookup n.ip
            = none := by
  obtain ⟨hexp, hfull, hsplit⟩ := h
  obtain ⟨n₀, hn₀, -, hbudget⟩ := id hsplit
  obtain ⟨idxs, hg⟩ := Option.isSome_iff_exists.mp (mem_group_keys.mpr ⟨n₀, hn₀⟩)
  have hnodes : idxs.map Prod.fst = subnetNodes isGroup cidrOf s.kept c := group_nodes (g := ⟨c, idxs⟩) hg
  have hlen : cfg.budget < idxs.length := by
    rw [← List.length_map (f := Prod.fst), hnodes]
    exact Nat.lt_of_lt_of_le hbudget (List.length_filter_le _ _)
  have hperm := Runtime.stable.sortSlice_perm (quieter cfg s.visible) idxs
  obtain ⟨p, x, y, q, he, hp, hxy⟩ := Cut.tie_at_cut hperm
    (sorted_members Runtime.stable s.visible idxs)
    ((splits_members (g := ⟨c, idxs⟩) hg).mp hsplit)
  -- what the two sorts cut off
  have hstable : (Runtime.stable.sortSlice (quieter cfg s.visible) idxs).drop cfg.budget
      = y :: q := by
    rw [he, ← hp, List.drop_append]
    simp
  have hswap : ((Runtime.swapAt cfg.budget).sortSlice (quieter cfg s.visible) idxs).drop cfg.budget
      = x :: q := by
    have hsorted : (Runtime.swapAt cfg.budget).sortSlice (quieter cfg s.visible) idxs
        = p ++ y :: x :: q := by
      show Cut.swapTied _ cfg.budget (Runtime.stable.sortSlice (quieter cfg s.visible) idxs) = _
      rw [he, ← hp]
      exact Cut.swapTied_append p x y q (quieter_tie.mpr hxy)
    rw [hsorted, ← hp, List.drop_append]
    simp
  have hy : y.1 ∈ subnetNodes isGroup cidrOf s.kept c := by
    rw [← hnodes]
    refine List.mem_map_of_mem (hperm.mem_iff.mp ?_)
    rw [he]
    simp
  refine ⟨y.1, hy, ?_, ?_⟩
  · refine (collapseLevel_mapped (g := ⟨c, idxs⟩) Runtime.stable_local fits hids hroots hg hy).mpr
      ⟨_, planGroup_tail hexp hfull hlen, ?_⟩
    unfold Fold.nodes
    rw [hstable]
    exact List.mem_cons_self
  · refine Option.not_isSome_iff_eq_none.mp fun hsome => ?_
    obtain ⟨f, hf, hin⟩ := (collapseLevel_mapped (g := ⟨c, idxs⟩)
      (Runtime.swapAt_local cfg.budget) fits hids hroots hg hy).mp hsome
    rw [planGroup_tail hexp hfull hlen, Option.some.injEq] at hf
    subst hf
    unfold Fold.nodes at hin
    simp only [hswap] at hin
    -- the nodes of the subnet are distinct
    have hnd : (idxs.map Prod.fst).Nodup := by
      rw [hnodes]
      exact (List.Nodup.of_map _ hids).filter _
    have hnd := ((hperm.map Prod.fst).nodup_iff).mpr hnd
    rw [he, List.map_append, List.map_cons, List.map_cons] at hnd
    have hxy := List.nodup_cons.mp (List.nodup_append'.mp hnd).2.1
    rcases List.mem_cons.mp hin with hyx | hyq
    · exact hxy.1 (hyx ▸ List.mem_cons_self)
    · exact (List.nodup_cons.mp hxy.2).1 hyq

/-- A node that need not fit the budget is folded by a sort that puts it last of its count. -/
theorem mapped_last (hids : (s.kept.map Node.ip).Nodup)
    (hroots : ∀ n ∈ s.kept, s.hostToSuper.lookup n.ip = none) (hexp : cfg.isExpanded c = true)
    (hfull : cfg.isFullExpand c = false) {n : Node} (hn : n ∈ subnetNodes isGroup cidrOf s.kept c)
    (hbudget : cfg.budget < ((subnetNodes isGroup cidrOf s.kept c).filter fun k =>
      effective cfg s.visible n ≤ effective cfg s.visible k).length) :
    ((collapseLevel (Runtime.delaying fun m : Member => decide (m.1.ip = n.ip)) cfg isGroup cidrOf
      s).hostToSuper.lookup n.ip).isSome = true := by
  obtain ⟨idxs, hg⟩ := Option.isSome_iff_exists.mp (mem_group_keys.mpr ⟨n, hn⟩)
  have hnodes : idxs.map Prod.fst = subnetNodes isGroup cidrOf s.kept c :=
    group_nodes (g := ⟨c, idxs⟩) hg
  have hnd : (idxs.map fun m => m.1.ip).Nodup := by
    have hall : ((subnetNodes isGroup cidrOf s.kept c).map Node.ip).Nodup :=
      hids.sublist (List.filter_sublist.map Node.ip)
    rwa [← hnodes, List.map_map] at hall
  rw [← hnodes] at hn hbudget
  rw [List.filter_map, List.length_map] at hbudget
  obtain ⟨m, hm, rfl⟩ := List.mem_map.mp hn
  have hlen : cfg.budget < idxs.length := Nat.lt_of_lt_of_le hbudget (List.length_filter_le _ _)
  refine (collapseLevel_mapped (g := ⟨c, idxs⟩) (Runtime.delaying_local _) fits hids hroots hg
    (hnodes ▸ hn)).mpr ⟨_, planGroup_tail hexp hfull hlen, List.mem_map_of_mem ?_⟩
  rw [Runtime.delaying_sort]
  have hpre : Preorders (Cut.delayed (fun m' : Member => decide (m'.1.ip = m.1.ip))
      (quieter cfg s.visible)) := Cut.delayed_preorders (quieter_preorders s.visible)
  have hperm := Runtime.stable.sortSlice_perm
    (Cut.delayed (fun m' : Member => decide (m'.1.ip = m.1.ip)) (quieter cfg s.visible)) idxs
  have hcut : cfg.budget < ((Runtime.stable.sortSlice (Cut.delayed (fun m' : Member =>
      decide (m'.1.ip = m.1.ip)) (quieter cfg s.visible)) idxs).filter fun m' : Member =>
        effective cfg s.visible m.1 ≤ effective cfg s.visible m'.1).length := by
    rw [(hperm.filter _).length_eq]
    exact hbudget
  refine Cut.mem_drop_of_last (fun m' : Member => effective cfg s.visible m'.1)
    (Runtime.stable.sortSlice_sorted hpre idxs) (hpre.irrefl m) (hperm.nodup_iff.mpr (List.Nodup.of_map _ hnd))
    (hperm.mem_iff.mpr hm) hcut fun m' hm' hne hle => ?_
  -- it is another node, so of one count it comes first
  have hother : m'.1.ip ≠ m.1.ip := fun he =>
    hne (List.inj_on_of_nodup_map hnd (hperm.mem_iff.mp hm') hm he)
  unfold Cut.delayed quieter
  rcases Nat.lt_or_eq_of_le hle with hlt | heq
  · simp [hlt]
  · simp [heq, hother]

/-- Where no tie is split the two sorts give one level. -/
theorem levels_agree (hties : ∀ c, ¬ SplitsTie cfg isGroup cidrOf s c) :
    collapseLevel Runtime.stable cfg isGroup cidrOf s
      = collapseLevel (Runtime.swapAt cfg.budget) cfg isGroup cidrOf s := by
  have hplan : ∀ g, (groups Prod.fst Prod.snd (subnetMembers isGroup cidrOf s.kept)).lookup g.1
      = some g.2 → planGroup Runtime.stable cfg s.visible g
        = planGroup (Runtime.swapAt cfg.budget) cfg s.visible g := by
    rintro ⟨c, idxs⟩ hg
    by_cases hexp : cfg.isExpanded c = true ∧ cfg.isFullExpand c = false
    · have hsort : Runtime.stable.sortSlice (quieter cfg s.visible) idxs
          = (Runtime.swapAt cfg.budget).sortSlice (quieter cfg s.visible) idxs := by
        refine (Cut.swapTied_eq_self fun p x y q he hp htie => hties c ?_).symm
        refine ⟨hexp.1, hexp.2, (splits_members (g := ⟨c, idxs⟩) hg).mpr ?_⟩
        exact Cut.splits_of_tie (Runtime.stable.sortSlice_perm _ idxs)
          (sorted_members Runtime.stable s.visible idxs) he hp (quieter_tie.mp htie)
      unfold planGroup
      unfold quieter at hsort
      simp only [hsort]
    · unfold planGroup
      by_cases hfull : cfg.isFullExpand c = true
      · simp only [hfull, if_true]
      · have hexp : ¬ cfg.isExpanded c = true := fun h => hexp ⟨h, Bool.eq_false_iff.mpr hfull⟩
        simp only [hexp, if_false, Bool.false_eq_true]
  have hlevel := level_planned isGroup Runtime.stable_local fits
  have hlevel' := level_planned isGroup (Runtime.swapAt_local cfg.budget) fits
  have hrange : ∀ g ∈ Runtime.stable.rangeOf (groups Prod.fst Prod.snd
      (subnetMembers isGroup cidrOf s.kept)), planGroup Runtime.stable cfg s.visible g
        = planGroup (Runtime.swapAt cfg.budget) cfg s.visible g :=
    fun g hg => hplan g ((Runtime.stable.mem_rangeOf).mp hg)
  rw [List.filterMap_congr hrange] at hlevel
  have heq := hlevel.trans hlevel'.symm
  unfold collapseLevel
  simp only [heq]

end Ties

end Etherchimp
