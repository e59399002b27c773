import Etherchimp.Graph.BuildView

/-!
# Folding a group keeps a partition of the hosts

Every node of a folding stands for hosts: a loose host for itself, a supernode for the
hosts folded into it. `Partition` says these sets split the hosts, that a supernode's
counters are their totals, and that the map of supernodes leads every host to the
node it is part of.

Ids are ranked: hosts, /24 supernodes and their tails, /16 supernodes and theirs. The
map of supernodes climbs in rank, so no chain has three hops.
-/

namespace Etherchimp

open Chains Grouping

/-! ## The rank of an id -/

/-- 2 for the names of level 2, 1 for those of level 1, 0 for names of neither shape. -/
def nameRank (id : String) : Nat :=
  if "/16".toList <:+ id.toList ∨ "/16+".toList <:+ id.toList then 2
  else if '/' ∈ id.toList then 1
  else 0

theorem nameRank_plain {id : String} (h : '/' ∉ id.toList) : nameRank id = 0 := by
  have hsuffix : ∀ s : String, '/' ∈ s.toList → ¬ s.toList <:+ id.toList :=
    fun s hs hsuf => h (hsuf.subset hs)
  unfold nameRank
  rw [if_neg (not_or.mpr ⟨hsuffix "/16" (by decide), hsuffix "/16+" (by decide)⟩), if_neg h]

/-- The rank of a name; a host has the lowest, whatever its id looks like. -/
def superRank (hosts : List Node) (id : String) : Nat :=
  if id ∈ hosts.map Node.ip then 0 else nameRank id

theorem superRank_le (hosts : List Node) (id : String) : superRank hosts id ≤ 2 := by
  unfold superRank nameRank
  split
  · exact Nat.zero_le 2
  · split
    · exact Nat.le_refl 2
    · split <;> omega

theorem superRank_host {hosts : List Node} {n : Node} (hn : n ∈ hosts) : superRank hosts n.ip = 0 :=
  if_pos (List.mem_map_of_mem hn)

theorem superRank_name {hosts : List Node} {id : String} (h : id ∉ hosts.map Node.ip) :
    superRank hosts id = nameRank id := if_neg h

theorem superRank_plain {hosts : List Node} {id : String} (h : '/' ∉ id.toList) :
    superRank hosts id = 0 := by
  unfold superRank
  rw [nameRank_plain h, ite_self]

/-- What a name ends with decides its rank. -/
theorem not_suffix_append {s t u : List Char} (h : ¬ s <:+ t) (hl : s.length ≤ t.length) :
    ¬ s <:+ u ++ t :=
  fun hs => h (List.suffix_of_suffix_length_le hs (List.suffix_append u t) hl)

/-- A name a level can fold into: its rank and its tail's, and no `+` of its own. -/
structure Proper (r : Nat) (cidr : String) : Prop where
  rank : nameRank cidr = r
  tail : nameRank (residualSuperID cidr) = r
  plain : ¬ ['+'] <:+ cidr.toList

theorem proper_24 (net : String) : Proper 1 (net ++ ".0/24") := by
  have hmem : '/' ∈ (net ++ ".0/24").toList := by
    rw [String.toList_append]
    exact List.mem_append_right _ (by decide)
  refine ⟨?_, ?_, ?_⟩
  · unfold nameRank
    rw [if_neg, if_pos hmem]
    rw [String.toList_append]
    exact not_or.mpr ⟨not_suffix_append (by decide) (by decide),
      not_suffix_append (by decide) (by decide)⟩
  · unfold nameRank residualSuperID
    rw [if_neg, if_pos]
    · rw [String.toList_append]
      exact List.mem_append_left _ hmem
    · rw [String.toList_append, String.toList_append, List.append_assoc]
      exact not_or.mpr ⟨not_suffix_append (by decide) (by decide),
        not_suffix_append (by decide) (by decide)⟩
  · rw [String.toList_append]
    exact not_suffix_append (by decide) (by decide)

theorem proper_16 (net : String) : Proper 2 (net ++ ".0.0/16") := by
  refine ⟨?_, ?_, ?_⟩
  · have hsuf : "/16".toList <:+ (net ++ ".0.0/16").toList := by
      rw [String.toList_append]
      exact List.IsSuffix.trans (by decide) (List.suffix_append _ _)
    unfold nameRank
    rw [if_pos (.inl hsuf)]
  · have hsuf : "/16+".toList <:+ (net ++ ".0.0/16" ++ "+").toList := by
      rw [String.toList_append, String.toList_append, List.append_assoc]
      exact List.IsSuffix.trans (by decide) (List.suffix_append _ _)
    unfold nameRank residualSuperID
    rw [if_pos (.inr hsuf)]
  · rw [String.toList_append]
    exact not_suffix_append (by decide) (by decide)

/-- A tail is named by no other group. -/
theorem Proper.ne_tail {r : Nat} {cidr cidr' : String} (h : Proper r cidr) :
    cidr ≠ residualSuperID cidr' := by
  intro he
  have hp := h.plain
  rw [he] at hp
  unfold residualSuperID at hp
  rw [String.toList_append] at hp
  exact hp (List.suffix_append _ _)

theorem residualSuperID_inj {cidr cidr' : String} (h : residualSuperID cidr = residualSuperID cidr') :
    cidr = cidr' := by
  unfold residualSuperID at h
  have h := congrArg String.toList h
  rw [String.toList_append, String.toList_append] at h
  exact String.toList_injective (List.append_cancel_right h)

/-! ## The partition -/

/-- Each kept node stands for its hosts, and the supernode map leads every host to its node. -/
structure Partition (hosts : List Node) (full : Node → Prop) (r : Nat) (s : Folding)
    (content : String → List Node) : Prop where
  nodup : (s.kept.map Node.ip).Nodup
  split : (s.kept.flatMap fun k => content k.ip).Perm hosts
  packets : ∀ k ∈ s.kept, k.packetCount = ((content k.ip).map Node.packetCount).sum
  bytes : ∀ k ∈ s.kept, k.byteCount = ((content k.ip).map Node.byteCount).sum
  count : ∀ k ∈ s.kept, s.memberHostCount k = (content k.ip).length
  leads : ∀ k ∈ s.kept, ∀ h ∈ content k.ip, Leads s.hostToSuper h.ip k.ip
  /-- A node that is no supernode is a host, and stands for itself. -/
  loose : ∀ k ∈ s.kept, s.isSuper k.ip = false → content k.ip = [k]
  /-- What is shown has not been folded. -/
  roots : ∀ k ∈ s.kept, s.hostToSuper.lookup k.ip = none
  supers : ∀ id, s.isSuper id = true → 0 < superRank hosts id
  ranked : Ranked (superRank hosts) s.hostToSuper
  low : ∀ k ∈ s.kept, superRank hosts k.ip ≤ r
  /-- Only names below the current level have been folded. -/
  below : ∀ a b, s.hostToSuper.lookup a = some b → superRank hosts a < r
  keys : ∀ a b, s.hostToSuper.lookup a = some b → 0 < superRank hosts a ∨ a ∈ hosts.map Node.ip
  /-- A host the user wants to see is not folded. -/
  shown : ∀ h ∈ hosts, full h → s.hostToSuper.lookup h.ip = none

section Step

variable {hosts : List Node} {full : Node → Prop} {r : Nat} {s s' : Folding} {f : Fold}
  {content : String → List Node} {rest : List Node}

theorem isSuper_iff {id : String} :
    s.isSuper id = true ↔ 0 < (s.superHosts.lookup id).getD 0 := decide_eq_true_iff

theorem memberHostCount_pos (s : Folding) (n : Node) : 0 < s.memberHostCount n := by
  unfold Folding.memberHostCount
  simp only []
  split <;> omega

/-- A kept node with the id of a host is that host. -/
theorem Partition.host_of_rank (h : Partition hosts full r s content) {k : Node} (hk : k ∈ s.kept)
    (hrank : superRank hosts k.ip = 0) : k ∈ hosts := by
  have hsup : s.isSuper k.ip = false := by
    refine Bool.eq_false_iff.mpr fun hs => ?_
    have := h.supers k.ip hs
    omega
  refine h.split.mem_iff.mp (List.mem_flatMap.mpr ⟨k, hk, ?_⟩)
  rw [h.loose k hk hsup]
  exact List.mem_singleton.mpr rfl

/-- A kept node named like no host is a supernode. -/
theorem Partition.isSuper_of_rank (h : Partition hosts full r s content) {k : Node}
    (hk : k ∈ s.kept) (hrank : 0 < superRank hosts k.ip) : s.isSuper k.ip = true := by
  by_contra hsup
  have hloose := h.loose k hk (Bool.eq_false_iff.mpr hsup)
  have hin : k ∈ content k.ip := hloose ▸ List.mem_singleton.mpr rfl
  have hhost : k ∈ hosts := h.split.mem_iff.mp (List.mem_flatMap.mpr ⟨k, hk, hin⟩)
  rw [superRank_host hhost] at hrank
  exact Nat.lt_irrefl 0 hrank

/-- A host is no supernode. -/
theorem Partition.host_not_super (h : Partition hosts full r s content) {n : Node}
    (hn : n ∈ hosts) : s.isSuper n.ip = false := by
  refine Bool.eq_false_iff.mpr fun hs => ?_
  have hrank := h.supers n.ip hs
  rw [superRank_host hn] at hrank
  exact Nat.lt_irrefl 0 hrank

/-! ## Folding one group -/

/-- Map every listed id to one name. -/
theorem lookup_foldMembers (members : List Member) (superID : String) (h : KeyedMap String String)
    (id : String) :
    (members.foldl (fun h m => h.insert m.1.ip superID) h).lookup id
      = if id ∈ members.map (fun m => m.1.ip) then some superID else h.lookup id := by
  induction members generalizing h with
  | nil => rfl
  | cons m l ih =>
    rw [List.foldl_cons, ih, KeyedMap.lookup_insert_eq, List.map_cons]
    by_cases hl : id ∈ l.map fun m => m.1.ip
    · rw [if_pos hl, if_pos (List.mem_cons_of_mem _ hl)]
    · rw [if_neg hl]
      by_cases hm : id = m.1.ip
      · rw [if_pos hm, if_pos (hm ▸ List.mem_cons_self)]
      · rw [if_neg hm, if_neg (List.not_mem_cons_of_ne_of_not_mem hm hl)]

theorem sum_flatMap {α : Type} (f : α → List Node) (val : Node → Nat) (l : List α) :
    ((l.flatMap f).map val).sum = (l.map fun a => ((f a).map val).sum).sum := by
  induction l with
  | nil => rfl
  | cons a l ih =>
    rw [List.flatMap_cons, List.map_append, List.sum_append, ih, List.map_cons, List.sum_cons]

@[simp] theorem Fold.superNode_ip (f : Fold) : f.superNode.ip = f.superID := rfl

/-- What a fold makes of the hosts behind each id. -/
def Fold.hostsOf (f : Fold) (hosts : String → List Node) (id : String) : List Node :=
  if id = f.superID then f.members.flatMap fun m => hosts m.1.ip else hosts id

theorem Fold.hostsOf_new (f : Fold) (hosts : String → List Node) :
    f.hostsOf hosts f.superNode.ip = f.members.flatMap fun m => hosts m.1.ip := if_pos rfl

/--
One group is folded: its members leave the kept nodes for a supernode of a new name, of
a rank no member has.
-/
structure Folds (hosts : List Node) (r : Nat) (s s' : Folding) (f : Fold) (rest : List Node) : Prop where
  kept : s.kept.Perm (f.members.map Prod.fst ++ rest)
  kept' : s'.kept.Perm (f.superNode :: rest)
  map : s'.hostToSuper = f.members.foldl (fun h m => h.insert m.1.ip f.superID) s.hostToSuper
  counts : s'.superHosts
    = s.superHosts.insert f.superID (f.members.map fun m => s.memberHostCount m.1).sum
  nonempty : f.members ≠ []
  rank : superRank hosts f.superID = r
  below : ∀ m ∈ f.members, superRank hosts m.1.ip < r
  fresh : f.superID ∉ s.kept.map Node.ip

namespace Folds

variable (hf : Folds hosts r s s' f rest)

include hf

theorem mem_kept {m : Member} (hm : m ∈ f.members) : m.1 ∈ s.kept :=
  hf.kept.mem_iff.mpr (List.mem_append_left _ (List.mem_map_of_mem hm))

theorem rest_kept {k : Node} (hk : k ∈ rest) : k ∈ s.kept :=
  hf.kept.mem_iff.mpr (List.mem_append_right _ hk)

theorem mem_kept' {k : Node} (hk : k ∈ s'.kept) : k = f.superNode ∨ k ∈ rest :=
  List.mem_cons.mp (hf.kept'.mem_iff.mp hk)

theorem ids : (s.kept.map Node.ip).Perm ((f.members.map fun m => m.1.ip) ++ rest.map Node.ip) := by
  have h := hf.kept.map Node.ip
  rwa [List.map_append, List.map_map] at h

theorem rest_ne {k : Node} (hk : k ∈ rest) : k.ip ≠ f.superID := by
  intro he
  exact hf.fresh (he ▸ List.mem_map_of_mem (hf.rest_kept hk))

theorem content_rest (content : String → List Node) {k : Node} (hk : k ∈ rest) :
    f.hostsOf content k.ip = content k.ip := if_neg (hf.rest_ne hk)

theorem lookup (id : String) : s'.hostToSuper.lookup id
    = if id ∈ f.members.map (fun m => m.1.ip) then some f.superID else s.hostToSuper.lookup id := by
  rw [hf.map, lookup_foldMembers]

theorem members_below {id : String} (hid : id ∈ f.members.map fun m => m.1.ip) :
    superRank hosts id < r := by
  obtain ⟨m, hm, rfl⟩ := List.mem_map.mp hid
  exact hf.below m hm

theorem superHosts_ne {id : String} (hid : id ≠ f.superID) :
    s'.superHosts.lookup id = s.superHosts.lookup id := by
  rw [hf.counts, AList.lookup_insert_ne hid]

theorem isSuper_ne {id : String} (hid : id ≠ f.superID) : s'.isSuper id = s.isSuper id := by
  unfold Folding.isSuper
  rw [hf.superHosts_ne hid]

theorem superHosts_new : (s'.superHosts.lookup f.superID).getD 0
    = (f.members.map fun m => s.memberHostCount m.1).sum := by
  rw [hf.counts, AList.lookup_insert]
  rfl

theorem count_pos : 0 < (f.members.map fun m => s.memberHostCount m.1).sum := by
  obtain ⟨m, l, hml⟩ := List.exists_cons_of_ne_nil hf.nonempty
  rw [hml, List.map_cons, List.sum_cons]
  have := memberHostCount_pos s m.1
  omega

theorem isSuper_new : s'.isSuper f.superID = true :=
  isSuper_iff.mpr (hf.superHosts_new ▸ hf.count_pos)

/-- A total that is the sum over the hosts behind a node stays so. -/
theorem total (val : Node → Nat)
    (hval : val f.superNode = (f.members.map fun m => val m.1).sum)
    (hold : ∀ k ∈ s.kept, val k = ((content k.ip).map val).sum) :
    ∀ k ∈ s'.kept, val k = ((f.hostsOf content k.ip).map val).sum := by
  intro k hk
  rcases hf.mem_kept' hk with rfl | hk
  · rw [f.hostsOf_new, sum_flatMap, hval]
    exact congrArg List.sum (List.map_congr_left fun m hm => hold m.1 (hf.mem_kept hm))
  · rw [hf.content_rest content hk]
    exact hold k (hf.rest_kept hk)

end Folds

section Partition

variable (h : Partition hosts full r s content) (hf : Folds hosts r s s' f rest)

include h hf

/-- The pointers there stay. -/
theorem Partition.mono_fold {a b : String} (hab : s.hostToSuper.lookup a = some b) :
    s'.hostToSuper.lookup a = some b := by
  rw [hf.lookup, if_neg, hab]
  intro ha
  obtain ⟨m, hm, rfl⟩ := List.mem_map.mp ha
  rw [h.roots m.1 (hf.mem_kept hm)] at hab
  exact absurd hab nofun

theorem Partition.split_fold : (s'.kept.flatMap fun k => f.hostsOf content k.ip).Perm hosts := by
  have hold : (f.members.flatMap (fun m => content m.1.ip)
      ++ rest.flatMap fun k => content k.ip).Perm hosts := by
    have := (hf.kept.flatMap_right fun k => content k.ip).symm.trans h.split
    rwa [List.flatMap_append, List.flatMap_map] at this
  refine (hf.kept'.flatMap_right _).trans ?_
  rw [List.flatMap_cons]
  rw [f.hostsOf_new, List.flatMap_congr fun k hk => hf.content_rest content hk]
  exact hold

theorem Partition.count_fold : ∀ k ∈ s'.kept,
    s'.memberHostCount k = (f.hostsOf content k.ip).length := by
  intro k hk
  unfold Folding.memberHostCount
  simp only []
  rcases hf.mem_kept' hk with rfl | hk
  · rw [f.hostsOf_new, Fold.superNode_ip, hf.superHosts_new, if_pos hf.count_pos,
      List.length_flatMap]
    exact congrArg List.sum (List.map_congr_left fun m hm => h.count m.1 (hf.mem_kept hm))
  · rw [hf.superHosts_ne (hf.rest_ne hk), hf.content_rest content hk]
    exact h.count k (hf.rest_kept hk)

theorem Partition.leads_fold : ∀ k ∈ s'.kept, ∀ n ∈ f.hostsOf content k.ip,
    Leads s'.hostToSuper n.ip k.ip := by
  intro k hk n hn
  rcases hf.mem_kept' hk with rfl | hk
  · rw [f.hostsOf_new] at hn
    obtain ⟨m, hm, hnm⟩ := List.mem_flatMap.mp hn
    -- to the member, and from there to the supernode
    refine ((h.leads m.1 (hf.mem_kept hm) n hnm).mono fun a b => h.mono_fold hf).tail ?_
    rw [hf.lookup, if_pos (List.mem_map_of_mem (f := fun m : Member => m.1.ip) hm)]
    rfl
  · rw [hf.content_rest content hk] at hn
    exact (h.leads k (hf.rest_kept hk) n hn).mono fun a b => h.mono_fold hf

theorem Partition.roots_fold : ∀ k ∈ s'.kept, s'.hostToSuper.lookup k.ip = none := by
  intro k hk
  rw [hf.lookup]
  rcases hf.mem_kept' hk with rfl | hk
  · rw [Fold.superNode_ip]
    have hmem : f.superID ∉ f.members.map fun m => m.1.ip := fun hin =>
      absurd (hf.members_below hin) (by rw [hf.rank]; exact Nat.lt_irrefl r)
    rw [if_neg hmem]
    cases hb : s.hostToSuper.lookup f.superID with
    | none => rfl
    | some b => exact absurd (h.below _ _ hb) (by rw [hf.rank]; exact Nat.lt_irrefl r)
  · have hdisj := (List.nodup_append'.mp (hf.ids.nodup_iff.mp h.nodup)).2.2
    rw [if_neg fun hin => hdisj hin (List.mem_map_of_mem hk)]
    exact h.roots k (hf.rest_kept hk)

/--
**Folding one group keeps the partition**, when none of its hosts is to be shown.
-/
theorem Partition.fold (hr : 0 < r) (hids : (hosts.map Node.ip).Nodup)
    (hshown : ∀ m ∈ f.members, m.1 ∈ hosts → ¬ full m.1) :
    Partition hosts full r s' (f.hostsOf content) where
  nodup := by
    have hnd := (List.nodup_append'.mp (hf.ids.nodup_iff.mp h.nodup)).2.1
    rw [(hf.kept'.map Node.ip).nodup_iff, List.map_cons, List.nodup_cons]
    refine ⟨fun hin => ?_, hnd⟩
    obtain ⟨k, hk, he⟩ := List.mem_map.mp hin
    exact hf.rest_ne hk he
  split := h.split_fold hf
  packets := hf.total Node.packetCount rfl h.packets
  bytes := hf.total Node.byteCount rfl h.bytes
  count := h.count_fold hf
  leads := h.leads_fold hf
  loose := by
    intro k hk hsup
    rcases hf.mem_kept' hk with rfl | hk
    · rw [Fold.superNode_ip, hf.isSuper_new] at hsup
      exact absurd hsup.symm Bool.false_ne_true
    · rw [hf.content_rest content hk]
      exact h.loose k (hf.rest_kept hk) (hf.isSuper_ne (hf.rest_ne hk) ▸ hsup)
  roots := h.roots_fold hf
  supers := by
    intro id hid
    by_cases he : id = f.superID
    · rw [he, hf.rank]
      exact hr
    · exact h.supers id (hf.isSuper_ne he ▸ hid)
  ranked := by
    intro a b hab
    rw [hf.lookup] at hab
    by_cases ha : a ∈ f.members.map fun m => m.1.ip
    · rw [if_pos ha] at hab
      rw [← Option.some.inj hab, hf.rank]
      exact hf.members_below ha
    · rw [if_neg ha] at hab
      exact h.ranked a b hab
  low := by
    intro k hk
    rcases hf.mem_kept' hk with rfl | hk
    · exact Nat.le_of_eq hf.rank
    · exact h.low k (hf.rest_kept hk)
  below := by
    intro a b hab
    rw [hf.lookup] at hab
    by_cases ha : a ∈ f.members.map fun m => m.1.ip
    · exact hf.members_below ha
    · rw [if_neg ha] at hab
      exact h.below a b hab
  keys := by
    intro a b hab
    rw [hf.lookup] at hab
    by_cases ha : a ∈ f.members.map fun m => m.1.ip
    · obtain ⟨m, hm, rfl⟩ := List.mem_map.mp ha
      rcases Nat.eq_zero_or_pos (superRank hosts m.1.ip) with h0 | hpos
      · exact .inr (List.mem_map_of_mem (h.host_of_rank (hf.mem_kept hm) h0))
      · exact .inl hpos
    · rw [if_neg ha] at hab
      exact h.keys a b hab
  shown := by
    intro n hn hfull
    rw [hf.lookup, if_neg]
    · exact h.shown n hn hfull
    · intro hin
      obtain ⟨m, hm, hip⟩ := List.mem_map.mp hin
      have hmem : m.1 ∈ hosts := h.host_of_rank (hf.mem_kept hm) (hip ▸ superRank_host hn)
      have heq : m.1 = n := List.inj_on_of_nodup_map hids hmem hn hip
      exact hshown m hm hmem (heq ▸ hfull)

end Partition

end Step

end Etherchimp
