import Etherchimp.Proof.LevelTies

/-!
# The folds of a level

A level folds one group for each subnet that is given a supernode. A subnet that is not
opened is folded whole; of an opened one are folded nodes that need not fit the budget.
Which nodes are left, and what the others are mapped to, follows from the folds.
-/

namespace Etherchimp

open Grouping

section Level

variable {hosts : List Node} {full : Node → Prop} {r : Nat} {go : Runtime} {cfg : ViewConfig}
  {isGroup : Node → Bool} {cidrOf : Node → String} {s s' : Folding}

/-- What is cut off an opened subnet has more members of its count or a greater one than fit. -/
theorem planGroup_behind {visible : KeyedMap String Nat} {g : Sigma fun _ : String => List Member}
    {f : Fold} (hp : planGroup go cfg visible g = some f) (hexp : cfg.isExpanded g.1 = true)
    {m : Member} (hm : m ∈ f.members) : cfg.budget
      < (g.2.filter fun b => effective cfg visible m.1 ≤ effective cfg visible b.1).length := by
  have plan := planGroup_some hp
  have hlen : cfg.budget < g.2.length := by
    by_contra hle
    have hid := plan.superID
    unfold superIDOf at hid
    rw [plan.closed, hexp, if_neg Bool.false_ne_true, if_pos rfl, if_pos (Nat.not_lt.mp hle)] at hid
    exact absurd hid nofun
  have htail : planGroup go cfg visible g = some _ := planGroup_tail hexp plan.closed hlen
  rw [hp, Option.some.injEq] at htail
  rw [htail] at hm
  rw [← ((go.sortSlice_perm (quieter cfg visible) g.2).filter _).length_eq]
  exact Cut.lt_atLeast_of_drop (sorted_members go visible g.2) hm

variable (go) in
/--
A level runs the plans of the groups that are given a supernode, in its order; each plan
finds the packets its members had at the start.
-/
theorem foldl_plans (fits : Fits hosts full r cfg isGroup cidrOf s.kept)
    {gs : List (Sigma fun _ : String => List Member)} (hgs : ∀ g ∈ gs,
      (groups Prod.fst Prod.snd (subnetMembers isGroup cidrOf s.kept)).lookup g.1 = some g.2)
    {l : Level} (hvis : ∀ n ∈ s.kept,
      (l.folding.visible.lookup n.ip).getD 0 = (s.visible.lookup n.ip).getD 0) :
    ∃ fs : List Fold, (∀ f ∈ fs, ∃ g ∈ gs, ∃ visible, (∀ n ∈ s.kept,
          effective cfg visible n = effective cfg s.visible n)
        ∧ planGroup go cfg visible g = some f)
      ∧ fs.map Fold.cidr
        = (gs.filter fun g => (superIDOf cfg g.1 g.2.length).isSome).map Sigma.fst
      ∧ gs.foldl (Level.foldGroup go cfg) l = fs.foldl Level.fold l := by
  induction gs generalizing l with
  | nil => exact ⟨[], fun f hf => absurd hf List.not_mem_nil, rfl, rfl⟩
  | cons g gs ih =>
    have hg := hgs g List.mem_cons_self
    have hnodes := group_nodes hg
    have hproper : Proper r g.1 := key_proper fits (Option.isSome_of_eq_some hg)
    rw [List.foldl_cons]
    unfold Level.foldGroup
    cases hp : planGroup go cfg l.folding.visible g with
    | none =>
      obtain ⟨fs, hplans, hcidr, hrun⟩ := ih (fun g' hg' => hgs g' (List.mem_cons_of_mem g hg')) hvis
      refine ⟨fs, fun f hf => ?_, ?_, hrun⟩
      · obtain ⟨g', hg', h⟩ := hplans f hf
        exact ⟨g', List.mem_cons_of_mem g hg', h⟩
      · rw [List.filter_cons_of_neg, hcidr]
        rw [planGroup_none hp]
        exact Bool.false_ne_true
    | some f =>
      have plan := planGroup_some hp
      have hf := planGroup_foldsOf hnodes hp
      -- the supernode's name is new, so the nodes keep their packets
      have hnext : ∀ n ∈ s.kept, ((l.fold f).folding.visible.lookup n.ip).getD 0
          = (s.visible.lookup n.ip).getD 0 := by
        intro n hn
        have hvisf : ((l.fold f).folding.visible.lookup n.ip).getD 0 = _ :=
          Level.fold_visible (hf.fresh fits hproper) n.ip
        rw [hvisf, if_neg (name_above fits hproper hf hn)]
        exact hvis n hn
      obtain ⟨fs, hplans, hcidr, hrun⟩ :=
        ih (fun g' hg' => hgs g' (List.mem_cons_of_mem g hg')) hnext
      refine ⟨f :: fs, fun f' hf' => ?_, ?_, hrun⟩
      · rcases List.mem_cons.mp hf' with rfl | hf'
        · refine ⟨g, List.mem_cons_self, l.folding.visible, fun n hn => ?_, hp⟩
          unfold effective
          rw [hvis n hn]
        · obtain ⟨g', hg', h⟩ := hplans f' hf'
          exact ⟨g', List.mem_cons_of_mem g hg', h⟩
      · rw [List.filter_cons_of_pos, List.map_cons, List.map_cons, hcidr, plan.cidr]
        rw [plan.superID]
        rfl

/-- What a list of folds maps an id to. -/
theorem foldl_fold_named {fs : List Fold} {l : Level} {id b : String}
    (h : (fs.foldl Level.fold l).folding.hostToSuper.lookup id = some b) :
    (∃ f ∈ fs, id ∈ f.nodes.map Node.ip ∧ b = f.superID)
      ∨ l.folding.hostToSuper.lookup id = some b := by
  induction fs generalizing l with
  | nil => exact .inr h
  | cons f fs ih =>
    rcases ih h with ⟨f', hf', hin⟩ | h
    · exact .inl ⟨f', List.mem_cons_of_mem f hf', hin⟩
    · rw [Level.fold_hostToSuper] at h
      by_cases hid : id ∈ f.nodes.map Node.ip
      · rw [if_pos hid, Option.some.injEq] at h
        exact .inl ⟨f, List.mem_cons_self, hid, h.symm⟩
      · rw [if_neg hid] at h
        exact .inr h

theorem foldl_fold_supers (fs : List Fold) (l : Level) :
    (fs.foldl Level.fold l).supers = l.supers ++ fs.map Fold.superNode := by
  induction fs generalizing l with
  | nil => exact (List.append_nil _).symm
  | cons f fs ih =>
    have hl : (l.fold f).supers = l.supers ++ [f.superNode] := rfl
    rw [List.foldl_cons, ih, hl, List.append_assoc]
    rfl

/-- A level's folds, one for each subnet that is given a supernode, and what they leave. -/
structure LevelFolds (cfg : ViewConfig) (isGroup : Node → Bool) (cidrOf : Node → String)
    (s s' : Folding) (fs : List Fold) : Prop where
  nodup : (fs.map Fold.cidr).Nodup
  mem_iff : ∀ c, c ∈ fs.map Fold.cidr
    ↔ (superIDOf cfg c (subnetNodes isGroup cidrOf s.kept c).length).isSome = true
  folds : ∀ f ∈ fs, FoldsOf cfg isGroup cidrOf s.kept f.cidr f
  nonempty : ∀ f ∈ fs, f.nodes ≠ []
  distinct : ∀ f ∈ fs, f.nodes.Nodup
  whole : ∀ f ∈ fs, cfg.isExpanded f.cidr = false → SameFold f
    { superID := f.cidr
      cidr := f.cidr
      isTail := false
      members := (subnetNodes isGroup cidrOf s.kept f.cidr).map fun n => (n, 0) }
  behind : ∀ f ∈ fs, cfg.isExpanded f.cidr = true → ∀ n ∈ f.nodes, cfg.budget
    < ((subnetNodes isGroup cidrOf s.kept f.cidr).filter fun k =>
      effective cfg s.visible n ≤ effective cfg s.visible k).length
  left : ∀ f ∈ fs, f.nodes.length
    + nodesLeft cfg f.cidr (subnetNodes isGroup cidrOf s.kept f.cidr).length
      = (subnetNodes isGroup cidrOf s.kept f.cidr).length + 1
  mapped : ∀ id, (s'.hostToSuper.lookup id).isSome = true
    ↔ (∃ f ∈ fs, id ∈ f.nodes.map Node.ip) ∨ (s.hostToSuper.lookup id).isSome = true
  named : ∀ id b, s'.hostToSuper.lookup id = some b →
    (∃ f ∈ fs, id ∈ f.nodes.map Node.ip ∧ b = f.superID) ∨ s.hostToSuper.lookup id = some b
  kept : s'.kept = fs.map Fold.superNode
    ++ s.kept.filter fun n => (s'.hostToSuper.lookup n.ip).isNone

variable (go) in
theorem exists_levelFolds (fits : Fits hosts full r cfg isGroup cidrOf s.kept)
    (hids : (s.kept.map Node.ip).Nodup)
    (hroots : ∀ n ∈ s.kept, s.hostToSuper.lookup n.ip = none) :
    ∃ fs, LevelFolds cfg isGroup cidrOf s (collapseLevel go cfg isGroup cidrOf s) fs
      ∧ (go.rangeOf (groups Prod.fst Prod.snd (subnetMembers isGroup cidrOf s.kept))).foldl
          (Level.foldGroup go cfg) { folding := s } = fs.foldl Level.fold { folding := s } := by
  have hgs : ∀ g ∈ go.rangeOf (groups Prod.fst Prod.snd (subnetMembers isGroup cidrOf s.kept)),
      (groups Prod.fst Prod.snd (subnetMembers isGroup cidrOf s.kept)).lookup g.1 = some g.2 :=
    fun g hg => (go.mem_rangeOf).mp hg
  obtain ⟨fs, hplans, hcidr, hrun⟩ := foldl_plans go fits hgs (l := { folding := s }) fun _ _ => rfl
  have hnodup : ((go.rangeOf (groups Prod.fst Prod.snd
      (subnetMembers isGroup cidrOf s.kept))).map Sigma.fst).Nodup :=
    (((go.rangeOf_perm _).map Sigma.fst).nodup_iff).mpr (AList.keys_nodup _)
  have hgroup : ∀ f ∈ fs, ∃ g, (groups Prod.fst Prod.snd
      (subnetMembers isGroup cidrOf s.kept)).lookup g.1 = some g.2 ∧ Plans cfg g f := by
    intro f hf
    obtain ⟨g, hg, visible, -, hp⟩ := hplans f hf
    exact ⟨g, (go.mem_rangeOf).mp hg, planGroup_some hp⟩
  have hcount : ∀ {g : Sigma fun _ : String => List Member}, (groups Prod.fst Prod.snd
      (subnetMembers isGroup cidrOf s.kept)).lookup g.1 = some g.2 →
      (subnetNodes isGroup cidrOf s.kept g.1).length = g.2.length := by
    intro g hg
    rw [← group_nodes hg, List.length_map]
  have hmap : ∀ id, (collapseLevel go cfg isGroup cidrOf s).hostToSuper.lookup id
      = (fs.foldl Level.fold { folding := s }).folding.hostToSuper.lookup id := by
    intro id
    rw [← hrun]
    rfl
  refine ⟨fs, ⟨?_, fun c => ⟨fun hc => ?_, fun hc => ?_⟩, fun f hf => ?_, fun f hf hnil => ?_,
    fun f hf => ?_, fun f hf hexp => ?_, fun f hf hexp n hn => ?_, fun f hf => ?_, fun id => ?_,
    fun id b h => ?_, ?_⟩, hrun⟩
  · rw [hcidr]
    exact hnodup.sublist (List.filter_sublist.map Sigma.fst)
  · rw [hcidr] at hc
    obtain ⟨g, hg, rfl⟩ := List.mem_map.mp hc
    obtain ⟨hg, hsome⟩ := List.mem_filter.mp hg
    rwa [hcount ((go.mem_rangeOf).mp hg)]
  · -- a subnet without nodes is given none
    have hpos : (subnetNodes isGroup cidrOf s.kept c).length ≠ 0 := by
      intro h0
      rw [h0, superIDOf_zero] at hc
      exact Bool.false_ne_true hc
    obtain ⟨n, hn⟩ := List.exists_mem_of_length_pos (Nat.pos_of_ne_zero hpos)
    obtain ⟨ms, hms⟩ := Option.isSome_iff_exists.mp (mem_group_keys.mpr ⟨n, hn⟩)
    rw [hcidr]
    refine List.mem_map.mpr ⟨⟨c, ms⟩, List.mem_filter.mpr ⟨(go.mem_rangeOf).mpr hms, ?_⟩, rfl⟩
    rwa [hcount (g := ⟨c, ms⟩) hms] at hc
  · obtain ⟨g, hg, plan⟩ := hgroup f hf
    rw [plan.cidr]
    refine ⟨hcount hg ▸ plan.superID, fun n hn => ?_⟩
    obtain ⟨m, hm, rfl⟩ := List.mem_map.mp hn
    rw [← group_nodes hg]
    exact List.mem_map_of_mem (plan.subset m hm)
  · obtain ⟨g, hg, plan⟩ := hgroup f hf
    exact plan.nonempty (List.map_eq_nil_iff.mp hnil)
  · obtain ⟨g, hg, plan⟩ := hgroup f hf
    have hnodes : (g.2.map Prod.fst).Nodup := by
      rw [group_nodes hg]
      exact (List.Nodup.of_map _ hids).filter _
    have hmembers : f.members.Nodup := by
      refine List.Nodup.of_map Prod.snd (plan.places ?_)
      rw [lookup_groups Prod.fst Prod.snd hg, List.map_map]
      exact List.pairwise_map.mpr (subnetMembers_places.sublist List.filter_sublist)
    refine List.Nodup.map_on (fun a ha b hb he => ?_) hmembers
    exact List.inj_on_of_nodup_map hnodes (plan.subset a ha) (plan.subset b hb) he
  · obtain ⟨g, hg, plan⟩ := hgroup f hf
    rw [plan.cidr] at hexp ⊢
    rw [plan.whole hexp]
    refine ⟨rfl, rfl, rfl, List.Perm.of_eq ?_⟩
    rw [nodes_unplaced, ← group_nodes hg]
    rfl
  · obtain ⟨g, hg, visible, hvis, hp⟩ := hplans f hf
    obtain ⟨m, hm, rfl⟩ := List.mem_map.mp hn
    have plan := planGroup_some hp
    have hnodes := group_nodes ((go.mem_rangeOf).mp hg)
    have hkept : ∀ b ∈ g.2, b.1 ∈ s.kept := by
      intro b hb
      have hb : b.1 ∈ subnetNodes isGroup cidrOf s.kept g.1 := hnodes ▸ List.mem_map_of_mem hb
      exact (mem_subnetNodes.mp hb).1
    rw [plan.cidr] at hexp ⊢
    have hbehind := planGroup_behind hp hexp hm
    rw [← hnodes, List.filter_map, List.length_map]
    refine Nat.lt_of_lt_of_eq hbehind (congrArg List.length (List.filter_congr fun b hb => ?_))
    rw [Function.comp_apply, hvis m.1 (hkept m (plan.subset m hm)), hvis b.1 (hkept b hb)]
  · obtain ⟨g, hg, plan⟩ := hgroup f hf
    have hlen : f.nodes.length = f.members.length := List.length_map Prod.fst
    rw [plan.cidr, hcount hg, hlen]
    exact plan.left
  · rw [hmap, foldl_fold_mapped]
  · rw [hmap] at h
    exact foldl_fold_named h
  · rw [collapseLevel_kept go hids hroots, hrun, foldl_fold_supers]
    rfl

/-- The visible packets after a run of folds that share no name. -/
theorem foldl_fold_visible {fs : List Fold} (hnames : (fs.map Fold.superID).Nodup)
    (hfresh : ∀ f ∈ fs, ∀ f' ∈ fs, ∀ n ∈ f.nodes, n.ip ≠ f'.superID) (l : Level) :
    (∀ id, id ∉ fs.map Fold.superID →
      ((fs.foldl Level.fold l).folding.visible.lookup id).getD 0
        = (l.folding.visible.lookup id).getD 0)
      ∧ ∀ f ∈ fs, ((fs.foldl Level.fold l).folding.visible.lookup f.superID).getD 0
        = (l.folding.visible.lookup f.superID).getD 0
          + (f.nodes.map fun n => (l.folding.visible.lookup n.ip).getD 0).sum := by
  induction fs generalizing l with
  | nil => exact ⟨fun _ _ => rfl, fun f hf => absurd hf List.not_mem_nil⟩
  | cons f₀ fs ih =>
    rw [List.map_cons, List.nodup_cons] at hnames
    obtain ⟨hother, hown⟩ := ih hnames.2 (fun f hf f' hf' => hfresh f
        (List.mem_cons_of_mem f₀ hf) f'
      (List.mem_cons_of_mem f₀ hf')) (l.fold f₀)
    have hvis := fun id => Level.fold_visible (l := l)
      (hfresh f₀ List.mem_cons_self f₀ List.mem_cons_self) id
    constructor
    · intro id hid
      rw [List.map_cons, List.mem_cons, not_or] at hid
      rw [List.foldl_cons, hother id hid.2, hvis, if_neg hid.1]
    · intro f hf
      rw [List.foldl_cons]
      rcases List.mem_cons.mp hf with rfl | hrest
      · rw [hother f.superID hnames.1, hvis, if_pos rfl]
      · have hne : f.superID ≠ f₀.superID :=
          fun he => hnames.1 (he ▸ List.mem_map_of_mem hrest)
        have hsame : ∀ n ∈ f.nodes, ((l.fold f₀).folding.visible.lookup n.ip).getD 0
            = (l.folding.visible.lookup n.ip).getD 0 := by
          intro n hn
          rw [hvis, if_neg (hfresh f hf f₀ List.mem_cons_self n hn)]
        rw [hown f hrest, hvis, if_neg hne, List.map_congr_left hsame]

/-- The names of a level's supernodes are distinct, and no node has one. -/
theorem LevelFolds.names {fs : List Fold} (h : LevelFolds cfg isGroup cidrOf s s' fs)
    (fits : Fits hosts full r cfg isGroup cidrOf s.kept) :
    (∀ f ∈ fs, Proper r f.cidr) ∧ (fs.map Fold.superID).Nodup
      ∧ ∀ f ∈ fs, ∀ n ∈ s.kept, n.ip ≠ f.superID := by
  have hproper : ∀ f ∈ fs, Proper r f.cidr := by
    intro f hf
    have hsome := (h.mem_iff f.cidr).mp (List.mem_map_of_mem hf)
    have hpos : (subnetNodes isGroup cidrOf s.kept f.cidr).length ≠ 0 := by
      intro h0
      rw [h0, superIDOf_zero] at hsome
      exact Bool.false_ne_true hsome
    obtain ⟨n, hn⟩ := List.exists_mem_of_length_pos (Nat.pos_of_ne_zero hpos)
    obtain ⟨hk, -, hc, hne⟩ := mem_subnetNodes.mp hn
    have hp := fits.proper n hk (hc.symm ▸ hne)
    rwa [hc] at hp
  refine ⟨hproper, ?_, fun f hf n hn he => ?_⟩
  · refine List.pairwise_map.mpr ((List.pairwise_map.mp h.nodup).imp_of_mem ?_)
    intro f f' hf hf' hne
    exact names_ne (hproper f hf) (hproper f' hf') hne (h.folds f hf).name (h.folds f' hf').name
  · have hlow := fits.low n hn
    rw [he, superRank_name (fits.clear f.cidr f.superID (h.folds f hf).superID),
      (hproper f hf).name_rank (h.folds f hf).name] at hlow
    exact absurd hlow (Nat.lt_irrefl r)

end Level

end Etherchimp
