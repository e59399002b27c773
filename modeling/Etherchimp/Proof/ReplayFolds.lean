import Etherchimp.Lib.Crowds
import Etherchimp.Proof.ReplayHosts
import Etherchimp.Proof.Subnets

/-!
# What a replay's view selects from

A replay opens no subnet, so a level folds a subnet whole or not at all. What it leaves
is then a matter of the hosts alone: each /24 with three hosts of its own makes room for
one entry, and if that is not enough so does each /16. Neither the order of the snapshot
nor that of the maps has a say in it.
-/

namespace Etherchimp

open Crowds

/-! ## One level -/

/-- The user has opened no subnet. -/
def NothingOpened (cfg : ViewConfig) : Prop := ∀ cidr, cfg.isExpanded cidr = false

/-- The subnet a node would be folded into. -/
def subnetKey (cidrOf : Node → String) (n : Node) : Option String :=
  if n.isGroup then none else if cidrOf n = "" then none else some (cidrOf n)

/-- The node a subnet is folded into. -/
def subnetNode (cidr : String) (hosts : List Node) : Node where
  ip := cidr
  hostname := cidr
  ips := [networkAddrOfCIDR cidr]
  packetCount := (hosts.map Node.packetCount).sum
  byteCount := (hosts.map Node.byteCount).sum
  lastSeen := 0
  isGroup := false

/-- The subnets crowded enough to be folded. -/
def crowdedSubnets (cidrOf : Node → String) (nodes : List Node) : List String :=
  crowded (subnetKey cidrOf) minHostsToCollapse nodes

/-- The nodes with every crowded subnet folded. -/
def foldSubnets (cidrOf : Node → String) (nodes : List Node) : List Node :=
  settle (subnetKey cidrOf) minHostsToCollapse subnetNode nodes

section Level

variable {cfg : ViewConfig} {go : Runtime} {cidrOf : Node → String}

/-- A group folded whole. -/
def wholeFold (g : Sigma fun _ : String => List Member) : Fold where
  superID := g.1
  cidr := g.1
  isTail := false
  members := g.2

theorem superNode_wholeFold (g : Sigma fun _ : String => List Member) :
    (wholeFold g).superNode = subnetNode g.1 (g.2.map Prod.fst) := by
  unfold Fold.superNode subnetNode wholeFold
  simp only [List.map_map, Function.comp_def]

theorem planGroup_unopened (h : NothingOpened cfg) (visible : KeyedMap String Nat)
    (g : Sigma fun _ : String => List Member) : planGroup go cfg visible g
      = if minHostsToCollapse ≤ g.2.length then some (wholeFold g) else none := by
  obtain ⟨cidr, idxs⟩ := g
  have hopen := h cidr
  have hfull : cfg.isFullExpand cidr = false := (Bool.or_eq_false_iff.mp hopen).2
  unfold planGroup
  simp only [hopen, hfull, Bool.false_eq_true, if_false]
  by_cases hbig : minHostsToCollapse ≤ idxs.length
  · rw [if_neg (Nat.not_lt.mpr hbig), if_pos hbig]
    rfl
  · rw [if_pos (Nat.not_le.mp hbig), if_neg hbig]

/-- What a level has done to the groups it went over. -/
structure WentOver (l l' : Level) (big : List (Sigma fun _ : String => List Member)) : Prop where
  supers : l'.supers = l.supers ++ big.map fun g => subnetNode g.1 (g.2.map Prod.fst)
  collapsed : l'.collapsed = l.collapsed ++ big.flatMap fun g => g.2.map Prod.snd
  isSuper : ∀ id, l'.folding.isSuper id = true
    ↔ id ∈ big.map Sigma.fst ∨ l.folding.isSuper id = true

theorem WentOver.fold (l : Level) {g : Sigma fun _ : String => List Member}
    (hbig : minHostsToCollapse ≤ g.2.length) : WentOver l (l.fold (wholeFold g)) [g] where
  supers := by
    show l.supers ++ [(wholeFold g).superNode] = _
    rw [superNode_wholeFold]
    rfl
  collapsed := by
    rw [List.flatMap_singleton]
    rfl
  isSuper id := by
    have hpos : 0 < (g.2.map fun m => l.folding.memberHostCount m.1).sum := by
      obtain ⟨m, hm⟩ := List.exists_mem_of_length_pos (Nat.lt_of_lt_of_le (by decide) hbig)
      refine Nat.lt_of_lt_of_le (memberHostCount_pos l.folding m.1) ?_
      exact List.single_le_sum (fun x _ => Nat.zero_le x) _ (List.mem_map_of_mem hm)
    have hlookup : (l.fold (wholeFold g)).folding.superHosts.lookup id
        = if id = g.1 then some (g.2.map fun m => l.folding.memberHostCount m.1).sum
          else l.folding.superHosts.lookup id := KeyedMap.lookup_insert_eq ..
    rw [isSuper_iff, isSuper_iff, hlookup, List.map_singleton, List.mem_singleton]
    by_cases hid : id = g.1
    · rw [if_pos hid]
      exact iff_of_true hpos (.inl hid)
    · rw [if_neg hid, or_iff_right hid]

theorem WentOver.trans {l l' l'' : Level} {big big' : List (Sigma fun _ : String => List Member)}
    (h : WentOver l l' big) (h' : WentOver l' l'' big') : WentOver l l'' (big ++ big') where
  supers := by rw [h'.supers, h.supers, List.append_assoc, List.map_append]
  collapsed := by rw [h'.collapsed, h.collapsed, List.append_assoc, List.flatMap_append]
  isSuper id := by rw [h'.isSuper, h.isSuper, List.map_append, List.mem_append, or_left_comm, or_assoc]

variable (go) in
theorem wentOver_foldl (h : NothingOpened cfg) (gs : List (Sigma fun _ : String => List Member))
    (l : Level) : WentOver l (gs.foldl (Level.foldGroup go cfg) l)
      (gs.filter fun g => minHostsToCollapse ≤ g.2.length) := by
  induction gs generalizing l with
  | nil => exact ⟨(List.append_nil _).symm, (List.append_nil _).symm, fun id => by simp⟩
  | cons g gs ih =>
    have hstep : Level.foldGroup go cfg l g
        = if minHostsToCollapse ≤ g.2.length then l.fold (wholeFold g) else l := by
      unfold Level.foldGroup
      rw [planGroup_unopened h]
      by_cases hbig : minHostsToCollapse ≤ g.2.length
      · rw [if_pos hbig, if_pos hbig]
      · rw [if_neg hbig, if_neg hbig]
    rw [List.foldl_cons, hstep, List.filter_cons]
    by_cases hbig : minHostsToCollapse ≤ g.2.length
    · rw [if_pos hbig, if_pos (decide_eq_true hbig), ← List.singleton_append]
      exact (WentOver.fold l hbig).trans (ih _)
    · rw [if_neg hbig, if_neg (by rw [decide_eq_true_eq]; exact hbig)]
      exact ih l

theorem subnetMembers_placed (kept : List Node) :
    subnetMembers Node.isGroup cidrOf kept = placed (subnetKey cidrOf) kept := by
  unfold subnetMembers placed
  refine List.filterMap_congr fun m _ => ?_
  unfold subnetKey
  dsimp only
  split
  · rfl
  · split <;> rfl

/-- **A level folds the crowded subnets.** -/
theorem collapseLevel_settles (go : Runtime) (cidrOf : Node → String) (h : NothingOpened cfg) (s : Folding) :
    (collapseLevel go cfg Node.isGroup cidrOf s).kept.Perm (foldSubnets cidrOf s.kept)
      ∧ ∀ id, (collapseLevel go cfg Node.isGroup cidrOf s).isSuper id = true
        ↔ id ∈ crowdedSubnets cidrOf s.kept ∨ s.isSuper id = true := by
  have hover := wentOver_foldl go h (go.rangeOf (Grouping.groups Prod.fst Prod.snd
    (subnetMembers Node.isGroup cidrOf s.kept))) { folding := s }
  have hbig : (go.rangeOf (Grouping.groups Prod.fst Prod.snd
        (subnetMembers Node.isGroup cidrOf s.kept))).filter
          (fun g => minHostsToCollapse ≤ g.2.length)
      = bigGroups go (subnetKey cidrOf) minHostsToCollapse s.kept := by
    rw [subnetMembers_placed]
    rfl
  rw [hbig] at hover
  unfold collapseLevel
  dsimp only
  constructor
  · rw [hover.supers, hover.collapsed, List.nil_append, List.nil_append, drop_bigGroups]
    exact merge_bigGroups.append_right _
  · intro id
    refine (hover.isSuper id).trans (or_congr ?_ Iff.rfl)
    exact (keys_bigGroups go).mem_iff

end Level

/-! ## Both levels -/

/-- The /16 of a folded /24 or of a host. -/
def host16 (folded : List String) (n : Node) : String :=
  let net :=
    if n.ip ∈ folded then
      let net := trimSuffix (baseCIDR n.ip) ".0/24"
      if net = baseCIDR n.ip then "" else net
    else primarySubnet24 n
  (beforeLastDot net).elim "" (· ++ ".0.0/16")

/-- The most nodes a replay shows unfolded, and the most it shows at all. -/
def foldAbove : Nat := 300
def showAtMost : Nat := 500

/-- What a replay's view selects from: the nodes, with crowded subnets folded if there are many. -/
def entries (nodes : List Node) : List Node :=
  if nodes.length ≤ foldAbove then nodes
  else
    let level := foldSubnets host24 nodes
    if level.length ≤ foldAbove then level
    else foldSubnets (host16 (crowdedSubnets host24 nodes)) level

theorem entries_few {nodes : List Node} (h : nodes.length ≤ foldAbove) : entries nodes = nodes :=
  if_pos h

section Order

variable {nodes nodes' : List Node}

theorem packetCounts_perm (h : (nodes.map hostOf).Perm (nodes'.map hostOf)) :
    (nodes.map Node.packetCount).Perm (nodes'.map Node.packetCount) := by
  have hcount : ∀ l : List Node, l.map Node.packetCount = (l.map hostOf).map Node.packetCount := by
    intro l
    rw [List.map_map]
    rfl
  rw [hcount nodes, hcount nodes']
  exact h.map _

theorem subnetKey_hostOf {cidrOf : Node → String} (hcidr : ∀ n, cidrOf (hostOf n) = cidrOf n)
    (n : Node) : subnetKey cidrOf (hostOf n) = subnetKey cidrOf n := by
  unfold subnetKey
  rw [hcidr]
  rfl

theorem foldSubnets_perm {cidrOf : Node → String} (hcidr : ∀ n, cidrOf (hostOf n) = cidrOf n)
    (h : (nodes.map hostOf).Perm (nodes'.map hostOf)) :
    ((foldSubnets cidrOf nodes).map hostOf).Perm ((foldSubnets cidrOf nodes').map hostOf) := by
  refine settle_perm (subnetKey_hostOf hcidr) (fun c l l' hl => ?_) h
  unfold hostOf subnetNode
  rw [(packetCounts_perm hl).sum_eq]

theorem crowdedSubnets_perm {cidrOf : Node → String} (hcidr : ∀ n, cidrOf (hostOf n) = cidrOf n)
    (h : (nodes.map hostOf).Perm (nodes'.map hostOf)) :
    (crowdedSubnets cidrOf nodes).Perm (crowdedSubnets cidrOf nodes') :=
  crowded_perm (subnetKey_hostOf hcidr) h

theorem host16_congr {folded folded' : List String} (h : ∀ id, id ∈ folded ↔ id ∈ folded') :
    host16 folded = host16 folded' := by
  funext n
  unfold host16
  rw [if_congr (h n.ip) rfl rfl]

/-- The entries depend on the hosts alone, in any order. -/
theorem entries_perm (h : (nodes.map hostOf).Perm (nodes'.map hostOf)) :
    ((entries nodes).map hostOf).Perm ((entries nodes').map hostOf) := by
  have hlength : ∀ {l l' : List Node}, (l.map hostOf).Perm (l'.map hostOf) →
      l.length = l'.length := by
    intro l l' hl
    have hlen := hl.length_eq
    rwa [List.length_map, List.length_map] at hlen
  have h24 : ∀ n, host24 (hostOf n) = host24 n := fun _ => rfl
  have hlevel := foldSubnets_perm h24 h
  have hfolded : host16 (crowdedSubnets host24 nodes) = host16 (crowdedSubnets host24 nodes') :=
    host16_congr fun _ => (crowdedSubnets_perm h24 h).mem_iff
  unfold entries
  dsimp only
  rw [hlength h, hlength hlevel, hfolded]
  by_cases hfew : nodes'.length ≤ foldAbove
  · rw [if_pos hfew, if_pos hfew]
    exact h
  rw [if_neg hfew, if_neg hfew]
  by_cases hfew' : (foldSubnets host24 nodes').length ≤ foldAbove
  · rw [if_pos hfew', if_pos hfew']
    exact hlevel
  · rw [if_neg hfew', if_neg hfew']
    exact foldSubnets_perm (fun _ => rfl) hlevel

end Order

/-! ## The view -/

theorem replayConfig_unopened : NothingOpened replayConfig := fun _ => rfl

theorem survivors_replay (raw : RawSnapshot) : survivors replayConfig raw = raw.nodes :=
  List.filter_eq_self.mpr fun _ _ => rfl

theorem aggActive_replay (count : Nat) :
    aggActive replayConfig (some {}) count = decide (foldAbove < count) := by
  have hthreshold : replayConfig.threshold = (foldAbove : Int) := by decide
  have hzoom : replayConfig.zoomBand ≠ "far" := by decide
  unfold aggActive
  simp [hthreshold, hzoom]

/-- The second level goes by the supernodes of the first. -/
theorem cidr16Of_replay {s : Folding} {folded : List String}
    (h : ∀ id, s.isSuper id = true ↔ id ∈ folded) :
    cidr16Of replayConfig s = host16 folded := by
  funext n
  unfold cidr16Of host16
  simp only [h, replayConfig_unopened _, Bool.false_eq_true, if_false]
  by_cases hn : n.ip ∈ folded
  · rw [if_pos hn, if_pos hn]
    generalize beforeLastDot _ = before
    cases before <;> rfl
  · have hnet : (if primarySubnet24 n = "" then "" else primarySubnet24 n) = primarySubnet24 n := by
      split
      · next hempty => exact hempty.symm
      · rfl
    rw [if_neg hn, if_neg hn, hnet]
    generalize beforeLastDot _ = before
    cases before <;> rfl

/-- What the folding of a replay's view keeps. -/
theorem aggregate_entries (go : Runtime) {s : Folding} (hs : ∀ id, s.isSuper id = false)
    (hmany : foldAbove < s.kept.length) :
    ((aggregate go replayConfig Node.isGroup s).kept.map hostOf).Perm
      ((entries s.kept).map hostOf) := by
  have h24 : cidr24Of s = host24 := by
    funext n
    unfold cidr24Of
    rw [hs]
    rfl
  obtain ⟨hkept, hsuper⟩ := collapseLevel_settles go host24 replayConfig_unopened s
  have hsuper : ∀ id, (collapseLevel go replayConfig Node.isGroup host24 s).isSuper id = true
      ↔ id ∈ crowdedSubnets host24 s.kept := by
    intro id
    rw [hsuper, hs, or_iff_left Bool.false_ne_true]
  unfold aggregate entries
  dsimp only
  rw [h24, if_neg (Nat.not_le.mpr hmany)]
  generalize collapseLevel go replayConfig Node.isGroup host24 s = s₁ at hkept hsuper ⊢
  have hlen := hkept.length_eq
  have h16 := cidr16Of_replay hsuper
  have hcond : (replayConfig.threshold < s₁.kept.length ∨ replayConfig.zoomBand = "far")
      ↔ ¬ (foldSubnets host24 s.kept).length ≤ foldAbove := by
    have hthreshold : replayConfig.threshold = (foldAbove : Int) := by decide
    have hzoom : replayConfig.zoomBand ≠ "far" := by decide
    rw [or_iff_left hzoom, hthreshold, hlen, Nat.not_le, Nat.cast_lt]
  by_cases hfew : (foldSubnets host24 s.kept).length ≤ foldAbove
  · rw [if_neg (fun h => hcond.mp h hfew), if_pos hfew]
    exact hkept.map hostOf
  · rw [if_pos (hcond.mpr hfew), if_neg hfew, h16]
    refine ((collapseLevel_settles go _ replayConfig_unopened s₁).1.map hostOf).trans ?_
    exact foldSubnets_perm (fun _ => rfl) (hkept.map hostOf)

end Etherchimp
