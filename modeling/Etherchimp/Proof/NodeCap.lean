import Etherchimp.Proof.ViewOrder

/-!
# Who is shown when there are too many nodes

The cut takes the members of the focused and opened subnets first and fills up with the
busiest others. It does so only when the members are fewer than the cap. When they fill it
on their own the cut is the plain one, by traffic alone, and a busy node of no interest
takes the place of a member.

Nodes are told apart by their ids, as the cut itself does.
-/

namespace Etherchimp

/-! ## The two loops -/

/-- The first loop of the cut: the protected nodes, while there is room. -/
def takeProtected (protect : KeyedMap String Bool) (cap : Nat) (kept : List Node) : Taken :=
  kept.foldl (fun (t : Taken) n =>
    if (protect.lookup n.ip).isSome ∧ t.1.length < cap then takeNode t n else t) ([], ∅)

/-- The second loop: whoever is not taken yet, while there is room. -/
def fillUp (cap : Nat) (t : Taken) (kept : List Node) : Taken :=
  kept.foldl (fun (t : Taken) n =>
    if cap ≤ t.1.length then t
    else if (t.2.lookup n.ip).isSome then t
    else takeNode t n) t

/-- The set beside the nodes taken holds their ids. -/
def Seen (t : Taken) : Prop := ∀ id, (t.2.lookup id).isSome = true ↔ id ∈ t.1.map Node.ip

theorem Seen.takeNode {t : Taken} (h : Seen t) (n : Node) : Seen (takeNode t n) := by
  intro id
  show ((t.2.insert n.ip true).lookup id).isSome = true ↔ id ∈ (t.1 ++ [n]).map Node.ip
  rw [Grouping.isSome_insert, h id, List.map_append, List.mem_append, List.map_singleton,
    List.mem_singleton, or_comm]

/-- What the first loop takes: protected nodes, and all of them unless it is full. -/
structure TookProtected (protect : KeyedMap String Bool) (cap : Nat) (kept : List Node) (t : Taken) :
    Prop where
  seen : Seen t
  only : ∀ n ∈ t.1, (protect.lookup n.ip).isSome = true
  all : ∀ n ∈ kept, (protect.lookup n.ip).isSome = true → n ∈ t.1 ∨ cap ≤ t.1.length

theorem takeProtected_took (protect : KeyedMap String Bool) (cap : Nat) (kept : List Node) :
    TookProtected protect cap kept (takeProtected protect cap kept) := by
  induction kept using List.reverseRecOn with
  | nil =>
    refine ⟨fun id => ?_, nofun, nofun⟩
    simp [takeProtected]
  | append_singleton kept n ih =>
    rw [takeProtected, List.foldl_concat, ← takeProtected]
    generalize takeProtected protect cap kept = t at ih
    split
    · next hn =>
      refine ⟨ih.seen.takeNode n, fun n' hn' => ?_, fun n' hn' hp => ?_⟩
      · rcases List.mem_append.mp hn' with h | h
        · exact ih.only n' h
        · exact List.mem_singleton.mp h ▸ hn.1
      · have hlen : t.1.length ≤ (takeNode t n).1.length := by simp [takeNode]
        rcases List.mem_append.mp hn' with h | h
        · rcases ih.all n' h hp with h | h
          · exact .inl (List.mem_append_left _ h)
          · exact .inr (h.trans hlen)
        · exact .inl (List.mem_append_right _ h)
    · next hn =>
      refine ⟨ih.seen, ih.only, fun n' hn' hp => ?_⟩
      rcases List.mem_append.mp hn' with h | h
      · exact ih.all n' h hp
      · obtain rfl := List.mem_singleton.mp h
        exact .inr (not_lt.mp fun hlt => hn ⟨hp, hlt⟩)

/-- What the second loop adds: a node only after the ids of all nodes before it are taken. -/
structure Filled (cap : Nat) (t : Taken) (kept : List Node) (r : Taken) : Prop where
  seen : Seen r
  old : ∀ n ∈ t.1, n ∈ r.1
  full : cap ≤ t.1.length → r = t
  room : ¬ cap ≤ r.1.length → ∀ n ∈ kept, n.ip ∈ r.1.map Node.ip
  new : ∀ a ∈ r.1, a ∈ t.1 ∨
    ∃ pre post, kept = pre ++ a :: post ∧ ∀ b ∈ pre, b.ip ∈ r.1.map Node.ip

theorem fillUp_filled {cap : Nat} {t : Taken} (ht : Seen t) (kept : List Node) :
    Filled cap t kept (fillUp cap t kept) := by
  induction kept using List.reverseRecOn with
  | nil => exact ⟨ht, fun _ h => h, fun _ => rfl, fun _ => nofun, fun a h => .inl h⟩
  | append_singleton kept n ih =>
    rw [fillUp, List.foldl_concat, ← fillUp]
    generalize fillUp cap t kept = r at ih
    -- what was said of an earlier node stays true when the list grows behind it
    have hlater : ∀ {r' : Taken}, (∀ id ∈ r.1.map Node.ip, id ∈ r'.1.map Node.ip) →
        ∀ a ∈ r.1, a ∈ t.1 ∨
          ∃ pre post, kept ++ [n] = pre ++ a :: post ∧ ∀ b ∈ pre, b.ip ∈ r'.1.map Node.ip := by
      intro r' hids a ha
      refine (ih.new a ha).imp_right ?_
      rintro ⟨pre, post, rfl, hpre⟩
      exact ⟨pre, post ++ [n], by simp, fun b hb => hids _ (hpre b hb)⟩
    split
    · next hfull =>
      exact ⟨ih.seen, ih.old, ih.full, fun h => absurd hfull h, hlater fun _ h => h⟩
    · next hroom =>
      split
      · next hseen =>
        refine ⟨ih.seen, ih.old, ih.full, fun _ n' hn' => ?_, hlater fun _ h => h⟩
        rcases List.mem_append.mp hn' with h | h
        · exact ih.room hroom n' h
        · exact List.mem_singleton.mp h ▸ (ih.seen n.ip).mp hseen
      · have hids : ∀ id ∈ r.1.map Node.ip, id ∈ (takeNode r n).1.map Node.ip := by
          intro id hid
          rw [takeNode, List.map_append]
          exact List.mem_append_left _ hid
        have hself : n.ip ∈ (takeNode r n).1.map Node.ip := by simp [takeNode]
        refine ⟨ih.seen.takeNode n, fun n' h => List.mem_append_left _ (ih.old n' h), fun h => ?_,
          fun _ n' hn' => ?_, fun a ha => ?_⟩
        · rw [ih.full h] at hroom
          exact absurd h hroom
        · rcases List.mem_append.mp hn' with h | h
          · exact hids _ (ih.room hroom n' h)
          · exact List.mem_singleton.mp h ▸ hself
        · rcases List.mem_append.mp ha with h | h
          · exact hlater hids a h
          · obtain rfl := List.mem_singleton.mp h
            exact .inr ⟨kept, [], rfl, fun b hb => hids _ (ih.room hroom b hb)⟩

/-! ## The members come first -/

/-- A node of this id is a member of the focused or of an opened subnet. -/
def DrillDown (cfg : ViewConfig) (s : Folding) (cand : List Node) (id : String) : Prop :=
  ∃ n ∈ cand, n.ip = id ∧ isProtected cfg s n = true

instance decidableDrillDown (cfg : ViewConfig) (s : Folding) (cand : List Node) (id : String) :
    Decidable (DrillDown cfg s cand id) :=
  inferInstanceAs (Decidable (∃ n ∈ cand, n.ip = id ∧ isProtected cfg s n = true))

/-- Members win the cut, and among the others the busier ones do. -/
structure DrillDownFirst (cfg : ViewConfig) (s : Folding) (cand shown : List Node) : Prop where
  /-- When a member is cut, members are all that is shown. -/
  members : (∃ n ∈ cand, isProtected cfg s n = true ∧ n.ip ∉ shown.map Node.ip) →
    ∀ n ∈ shown, DrillDown cfg s cand n.ip
  /-- No other node is shown in the place of a busier one. -/
  busiest : ∀ a ∈ shown, ∀ b ∈ cand, ¬ DrillDown cfg s cand a.ip → ¬ DrillDown cfg s cand b.ip →
    b.ip ∉ shown.map Node.ip → effective cfg s.visible b ≤ effective cfg s.visible a

/-- The ids of the members, each once. -/
def memberIDs (cfg : ViewConfig) (s : Folding) (cand : List Node) : List String :=
  ((cand.filter (isProtected cfg s)).map Node.ip).dedup

/--
The cut has nothing to cut, or fewer members than the cap, or so many busy members that
the others are behind the cap by traffic alone.
-/
def CapLeavesRoom (F : Type) [FloatMath F] (cfg : ViewConfig) (s : Folding) (cand : List Node) :
    Prop :=
  cand.length ≤ cfg.nodeCap ∨ (memberIDs cfg s cand).length < cfg.nodeCap ∨
    ∀ a ∈ cand, ¬ DrillDown cfg s cand a.ip →
      cfg.nodeCap ≤ cand.countP fun b => busierNode F cfg none s b a

theorem nodeCap_pos (cfg : ViewConfig) : 0 < cfg.nodeCap := by
  unfold ViewConfig.nodeCap defaultMaxNodes defaultIsolateMaxNodes
  simp only []
  split <;> split <;> split <;> omega

section Cutting

variable {F : Type} [FloatMath F] {cfg : ViewConfig} {s : Folding} {cand sorted : List Node}

theorem drillDown_perm (h : sorted.Perm cand) (id : String) :
    DrillDown cfg s sorted id ↔ DrillDown cfg s cand id :=
  exists_congr fun _ => and_congr_left' h.mem_iff

theorem isSome_protect (id : String) :
    ((idSet (sorted.filter (isProtected cfg s))).lookup id).isSome = true
      ↔ DrillDown cfg s sorted id := by
  rw [isSome_idSet, List.mem_map]
  refine exists_congr fun n => ?_
  rw [List.mem_filter, and_assoc, and_comm (a := isProtected cfg s n = true)]

theorem mem_memberIDs {id : String} : id ∈ memberIDs cfg s cand ↔ DrillDown cfg s cand id := by
  rw [memberIDs, List.mem_dedup, ← isSome_idSet, isSome_protect]

/-- The set of the code has one entry for each member. -/
theorem length_protect (h : sorted.Perm cand) :
    (idSet (sorted.filter (isProtected cfg s))).entries.length = (memberIDs cfg s cand).length := by
  have hkeys : (idSet (sorted.filter (isProtected cfg s))).keys.Perm (memberIDs cfg s cand) := by
    refine (List.perm_ext_iff_of_nodup (AList.keys_nodup _) (List.nodup_dedup _)).mpr fun id => ?_
    rw [← AList.mem_keys, ← AList.lookup_isSome, isSome_protect, drillDown_perm h]
    exact mem_memberIDs.symm
  have hlen := hkeys.length_eq
  rwa [AList.keys, List.keys, List.length_map] at hlen

variable (F) in
/-- Without an engine the nodes are in the order of their traffic. -/
theorem sortKey_none (cfg : ViewConfig) (s : Folding) (n : Node) :
    sortKey F cfg none s n = (effective cfg s.visible n : Int) := rfl

/-- What a sorted list has in front is as busy as what comes later. -/
theorem effective_le (hs : sorted.Pairwise fun a b => busierNode F cfg none s b a = false)
    {pre post : List Node} (hsplit : sorted = pre ++ post) {a b : Node} (ha : a ∈ pre)
    (hb : b ∈ post) : effective cfg s.visible b ≤ effective cfg s.visible a := by
  rw [hsplit, List.pairwise_append] at hs
  have hnot := hs.2.2 a ha b hb
  rw [(byCount_busierNode F cfg none s).not_less, sortKey_none, sortKey_none] at hnot
  exact Int.ofNat_le.mp hnot.1

/-- What stands in front of a node in a sorted list comes before it, or has its id. -/
theorem busier_or_same (hs : sorted.Pairwise fun a b => busierNode F cfg none s b a = false)
    {pre post : List Node} (hsplit : sorted = pre ++ post) {a b : Node} (ha : a ∈ pre)
    (hb : b ∈ post) : busierNode F cfg none s a b = true ∨ a.ip = b.ip := by
  rw [hsplit, List.pairwise_append] at hs
  cases hab : busierNode F cfg none s a b with
  | true => exact .inl rfl
  | false =>
    exact .inr ((byCount_busierNode F cfg none s).eq_of_ties hab (hs.2.2 a ha b hb)).2

/-- A cut to at least one node shows the id of everything in front of the cut. -/
theorem mem_drop_of_cut {n : Nat} {b : Node} (hb : b ∈ sorted)
    (hcut : b.ip ∉ (sorted.take n).map Node.ip) : b ∈ sorted.drop n := by
  rw [← List.take_append_drop n sorted, List.mem_append] at hb
  rcases hb with hb | hb
  · exact absurd (List.mem_map_of_mem hb) hcut
  · exact hb

/-! ## The three branches -/

/-- With nothing to cut all nodes are shown. -/
theorem drillDownFirst_all (h : sorted.Perm cand) : DrillDownFirst cfg s cand sorted where
  members := by
    rintro ⟨n, hn, -, hcut⟩
    exact absurd (List.mem_map_of_mem (h.mem_iff.mpr hn)) hcut
  busiest a _ b hb _ _ hcut := absurd (List.mem_map_of_mem (h.mem_iff.mpr hb)) hcut

/-- With no member to protect the cut is by traffic. -/
theorem drillDownFirst_none (h : sorted.Perm cand)
    (hs : sorted.Pairwise fun a b => busierNode F cfg none s b a = false)
    (hnone : ∀ id, ¬ DrillDown cfg s cand id) (n : Nat) :
    DrillDownFirst cfg s cand (sorted.take n) where
  members := by
    rintro ⟨n, hn, hp, -⟩
    exact absurd ⟨n, hn, rfl, hp⟩ (hnone n.ip)
  busiest a ha b hb _ _ hcut :=
    effective_le hs (List.take_append_drop n sorted).symm ha
      (mem_drop_of_cut (h.mem_iff.mpr hb) hcut)

/--
**A cut that the members fill is by traffic alone**, so members win it only when the
others are behind the cap anyway.
-/
theorem drillDownFirst_take (h : sorted.Perm cand)
    (hs : sorted.Pairwise fun a b => busierNode F cfg none s b a = false) {n : Nat}
    (hlen : n < cand.length) (hmany : n ≤ (memberIDs cfg s cand).length) :
    DrillDownFirst cfg s cand (sorted.take n) ↔ ∀ a ∈ cand, ¬ DrillDown cfg s cand a.ip →
      n ≤ cand.countP fun b => busierNode F cfg none s b a := by
  have hsplit := (List.take_append_drop n sorted).symm
  have htake : (sorted.take n).length = n := by
    rw [List.length_take, h.length_eq]
    omega
  constructor
  · intro hfirst a ha hnot
    -- `n` places do not hold `n` members and another node
    have hall : ∀ k ∈ sorted.take n, DrillDown cfg s cand k.ip := by
      by_contra hother
      push Not at hother
      obtain ⟨k, hk, hkn⟩ := hother
      have hshown : ∀ id ∈ memberIDs cfg s cand, id ∈ (sorted.take n).map Node.ip := by
        intro id hid
        obtain ⟨m, hm, rfl, hp⟩ := mem_memberIDs.mp hid
        by_contra hcut
        exact hkn (hfirst.members ⟨m, hm, hp, hcut⟩ k hk)
      have hsub : k.ip :: memberIDs cfg s cand ⊆ (sorted.take n).map Node.ip :=
        List.cons_subset.mpr ⟨List.mem_map_of_mem hk, hshown⟩
      have hnd : (k.ip :: memberIDs cfg s cand).Nodup :=
        List.nodup_cons.mpr ⟨fun hm => hkn (mem_memberIDs.mp hm), List.nodup_dedup _⟩
      have hle := (hnd.subperm hsub).length_le
      rw [List.length_cons, List.length_map, htake] at hle
      omega
    rw [← h.countP_eq]
    have hdrop : a ∈ sorted.drop n := by
      refine mem_drop_of_cut (h.mem_iff.mpr ha) fun hin => hnot ?_
      obtain ⟨k, hk, hka⟩ := List.mem_map.mp hin
      exact hka ▸ hall k hk
    refine Cut.le_countP_of_drop hdrop fun b hb => ?_
    rcases busier_or_same hs hsplit hb hdrop with hbusy | hsame
    · exact hbusy
    · exact absurd (hsame ▸ hall b hb) hnot
  · intro hbehind
    have hall : ∀ k ∈ sorted.take n, DrillDown cfg s cand k.ip := by
      intro k hk
      by_contra hnot
      have hk' : k ∈ cand := h.mem_iff.mp (List.mem_of_mem_take hk)
      have hirr := (byCount_busierNode F cfg none s).preorders.irrefl k
      have hlt := Cut.countP_lt_of_take hs hirr hk
      rw [h.countP_eq] at hlt
      exact absurd (hbehind k hk' hnot) (Nat.not_le.mpr hlt)
    exact ⟨fun _ => hall, fun a ha _ _ hnot => absurd (hall a ha) hnot⟩

/-- With room for others the two loops put the members first. -/
theorem drillDownFirst_fillUp (h : sorted.Perm cand)
    (hs : sorted.Pairwise fun a b => busierNode F cfg none s b a = false) (n : Nat) :
    DrillDownFirst cfg s cand
      (fillUp n (takeProtected (idSet (sorted.filter (isProtected cfg s))) n sorted) sorted).1 := by
  have ht := takeProtected_took (idSet (sorted.filter (isProtected cfg s))) n sorted
  generalize takeProtected (idSet (sorted.filter (isProtected cfg s))) n sorted = t at ht
  have hr : Filled n t sorted _ := fillUp_filled ht.seen sorted
  have honly : ∀ a ∈ t.1, DrillDown cfg s cand a.ip :=
    fun a ha => (drillDown_perm h a.ip).mp (isSome_protect a.ip |>.mp (ht.only a ha))
  constructor
  · rintro ⟨m, hm, hp, hcut⟩
    have hm' : m ∈ sorted := h.mem_iff.mpr hm
    rcases ht.all m hm' ((isSome_protect m.ip).mpr ⟨m, hm', rfl, hp⟩) with hin | hfull
    · exact absurd (List.mem_map_of_mem (hr.old m hin)) hcut
    · rw [hr.full hfull]
      exact honly
  · intro a ha b hb hnot _ hcut
    rcases hr.new a ha with hin | ⟨pre, post, hsplit, hpre⟩
    · exact absurd (honly a hin) hnot
    · have hb' : b ∈ pre ++ a :: post := hsplit ▸ h.mem_iff.mpr hb
      rcases List.mem_append.mp hb' with hb' | hb'
      · exact absurd (hpre b hb') hcut
      · rcases List.mem_cons.mp hb' with rfl | hb'
        · exact absurd (List.mem_map_of_mem ha) hcut
        · have hsplit' : sorted = (pre ++ [a]) ++ post := by
            rw [hsplit, List.append_assoc, List.singleton_append]
          exact effective_le hs hsplit' (List.mem_append_right _ (List.mem_singleton.mpr rfl)) hb'

/-- The cut keeps its promise exactly when the members do not fill it, or fill it by themselves. -/
theorem drillDownFirst_cut (h : sorted.Perm cand)
    (hs : sorted.Pairwise fun a b => busierNode F cfg none s b a = false) :
    DrillDownFirst cfg s cand (cutNodes cfg s sorted) ↔ CapLeavesRoom F cfg s cand := by
  have hlen := h.length_eq
  have hprot : (idSet (sorted.filter (isProtected cfg s))).entries.length
      = (memberIDs cfg s cand).length := length_protect h
  unfold cutNodes CapLeavesRoom
  simp only []
  split
  · next hfit => exact iff_of_true (drillDownFirst_all h) (.inl (hlen ▸ hfit))
  · next hcut =>
    split
    · next hplain =>
      rcases hplain with hnone | hmany
      · rw [hnone] at hprot
        have hzero : (memberIDs cfg s cand).length = 0 := hprot.symm
        refine iff_of_true (drillDownFirst_none h hs (fun id hid => ?_) _) (.inr (.inl ?_))
        · have := List.length_pos_of_mem (mem_memberIDs.mpr hid)
          omega
        · have := nodeCap_pos cfg
          omega
      · rw [hprot] at hmany
        rw [drillDownFirst_take h hs (by omega) hmany, or_iff_right (by omega),
          or_iff_right (by omega)]
    · next hroom =>
      rw [not_or, hprot] at hroom
      exact iff_of_true (drillDownFirst_fillUp h hs _) (.inr (.inl (by omega)))

end Cutting

/-! ## The view -/

section View

variable {F : Type} [FloatMath F]

/-- The nodes of a build that are left to cut. -/
def ViewInput.candNodes (go : Runtime) (raw : RawSnapshot) (cfg : ViewConfig)
    (input : ViewInput F) : List Node :=
  isolate cfg (input.folding go raw cfg)

/--
In a view built without an engine the members of the focused and opened subnets win the
cut exactly when it leaves room for them.
-/
theorem drillDownFirst_iff (go : Runtime) (raw : RawSnapshot) (cfg : ViewConfig)
    (input : ViewInput F) (hclient : input.client = none) :
    DrillDownFirst cfg (input.folding go raw cfg) (input.candNodes go raw cfg)
        (input.shownNodes go raw cfg)
      ↔ CapLeavesRoom F cfg (input.folding go raw cfg) (input.candNodes go raw cfg) := by
  have hstate : input.state = none := by rw [ViewInput.state, hclient, Option.map_none]
  unfold ViewInput.shownNodes selectNodes
  rw [hstate]
  exact drillDownFirst_cut (go.sortSlice_perm _ _)
    (go.sortSlice_sorted (byCount_busierNode F cfg none _).preorders _)

end View

/-! ## A busy hub outside -/

/-- A quiet host of an opened subnet, and a busy one elsewhere. -/
def busyHub : RawSnapshot :=
  { nodes :=
      [{ ip := "10.0.0.1", hostname := "", ips := ["10.0.0.1"], packetCount := 1, byteCount := 60,
         lastSeen := 0, isGroup := false },
       { ip := "192.168.0.1", hostname := "", ips := ["192.168.0.1"], packetCount := 5,
         byteCount := 300, lastSeen := 0, isGroup := false }]
    edges := [] }

/-- The subnet is opened, and there is room for `maxNodes` nodes. -/
def openedSubnet (maxNodes : Int) : ViewConfig :=
  { maxNodes := maxNodes, expandedSubnets := (∅ : KeyedMap String Bool).insert "10.0.0.0/24" true }

/-- With room for one node the busy host outside is the one that is shown. -/
theorem drillDownFirst_busyHub :
    (busyHub.nodes.map Node.ip).Nodup ∧
      ¬ DrillDownFirst (openedSubnet 1)
        (({} : ViewInput Float).folding Runtime.stable busyHub (openedSubnet 1))
        (({} : ViewInput Float).candNodes Runtime.stable busyHub (openedSubnet 1))
        (({} : ViewInput Float).shownNodes Runtime.stable busyHub (openedSubnet 1)) := by
  refine ⟨by decide, fun h => ?_⟩
  have hmember := h.members (by decide +kernel)
  revert hmember
  decide +kernel

/-- The busy hub, and one more host outside that is busier than the member. -/
def busyHubs : RawSnapshot :=
  { busyHub with
    nodes := busyHub.nodes ++
      [{ ip := "172.16.0.1", hostname := "", ips := ["172.16.0.1"], packetCount := 3,
         byteCount := 180, lastSeen := 0, isGroup := false }] }

/-- With room for two of the three the member stays and the quieter outsider goes. -/
theorem drillDownFirst_iff_busyHubs :
    DrillDownFirst (openedSubnet 2)
        (({} : ViewInput Float).folding Runtime.stable busyHubs (openedSubnet 2))
        (({} : ViewInput Float).candNodes Runtime.stable busyHubs (openedSubnet 2))
        (({} : ViewInput Float).shownNodes Runtime.stable busyHubs (openedSubnet 2))
      ∧ (({} : ViewInput Float).shownNodes Runtime.stable busyHubs (openedSubnet 2)).map Node.ip
        = ["10.0.0.1", "192.168.0.1"] := by
  refine ⟨(drillDownFirst_iff Runtime.stable busyHubs (openedSubnet 2) {} rfl).mpr ?_, ?_⟩
  · exact .inr (.inl (by decide +kernel))
  · decide +kernel

end Etherchimp
