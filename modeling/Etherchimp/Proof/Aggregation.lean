import Etherchimp.Proof.Subnets

/-!
# Aggregation keeps the partition

Each level keeps the partition of the hosts, so both do, as long as no host is named
like a supernode. Once every chain is one hop the map names the supernode itself.
-/

namespace Etherchimp

open Chains Grouping

section Aggregate

variable {hosts : List Node} {go : Runtime} {cfg : ViewConfig} {isGroup : Node → Bool} {s : Folding}
  {raw : RawSnapshot} {content : String → List Node}

/-! ## Both levels -/

theorem Partition.le {full : Node → Prop} {r r' : Nat} (h : Partition hosts full r s content)
    (hr : r ≤ r') : Partition hosts full r' s content :=
  { h with
    low := fun k hk => Nat.le_trans (h.low k hk) hr
    below := fun a b hab => Nat.lt_of_lt_of_le (h.below a b hab) hr }

/-- How the names of supernodes end. -/
def superEndings : List String := ["/24", "/24+", "/16", "/16+"]

/-- Hosts whose ids end like no supernode's name are named like none. -/
theorem clearNames_of_endings (isGroup : Node → Bool) (raw : RawSnapshot) (cfg : ViewConfig)
    (hids : (raw.nodes.map Node.ip).Nodup)
    (hends : ∀ n ∈ raw.nodes, ∀ e ∈ superEndings, ¬ e.toList <:+ n.ip.toList) :
    ClearNames cfg isGroup raw := by
  have hclear : ∀ {id e : String}, e ∈ superEndings → e.toList <:+ id.toList →
      id ∉ (survivors cfg raw).map Node.ip := by
    intro id e he hsuf hin
    obtain ⟨n, hn, rfl⟩ := List.mem_map.mp hin
    exact hends n (List.mem_filter.mp hn).1 e he hsuf
  have hmember : ∀ {c id : String} {l : List Node}, superIDOf cfg c l.length = some id →
      ∃ n, n ∈ l := by
    intro c id l h
    refine List.exists_mem_of_length_pos (Nat.pos_of_ne_zero fun h0 => ?_)
    rw [h0, superIDOf_zero] at h
    exact absurd h nofun
  have hsuffix : ∀ {e t : String} (s : String), e.toList <:+ t.toList → e.toList <:+ (s ++ t).toList := by
    intro e t s he
    rw [String.toList_append]
    exact he.trans (List.suffix_append _ _)
  refine ⟨hids.sublist (List.filter_sublist.map Node.ip), fun c id h => ?_, fun _ p id h => ?_⟩
  · obtain ⟨n, hn⟩ := hmember h
    obtain ⟨-, -, rfl, hne⟩ := mem_subnetNodes.mp hn
    have hname := superIDOf_name h
    rw [(host24_ne_empty hne).2] at hname
    rcases hname with rfl | rfl
    · exact hclear (e := "/24") (by decide) (hsuffix _ (by decide))
    · refine hclear (e := "/24+") (by decide) ?_
      unfold residualSuperID
      rw [String.append_assoc]
      exact hsuffix _ (by decide)
  · obtain ⟨k, hk⟩ := hmember h
    obtain ⟨n, hn⟩ : ∃ n, n ∈ subnetNodes isGroup (address16 cfg) (survivors cfg raw) p := by
      rcases mem_entries16.mp hk with ⟨hn, -⟩ | ⟨n, hn, -⟩
      · exact ⟨k, hn⟩
      · exact ⟨n, hn⟩
    obtain ⟨-, -, rfl, hne⟩ := mem_subnetNodes.mp hn
    obtain ⟨before, hbefore⟩ := address16_ne_empty_name hne
    have hname := superIDOf_name h
    rw [hbefore] at hname
    rcases hname with rfl | rfl
    · exact hclear (e := "/16") (by decide) (hsuffix _ (by decide))
    · refine hclear (e := "/16+") (by decide) ?_
      unfold residualSuperID
      rw [String.append_assoc]
      exact hsuffix _ (by decide)

theorem clearNames (isGroup : Node → Bool) (raw : RawSnapshot) (cfg : ViewConfig)
    (hids : (raw.nodes.map Node.ip).Nodup) (hslash : ∀ n ∈ raw.nodes, '/' ∉ n.ip.toList) :
    ClearNames cfg isGroup raw := by
  refine clearNames_of_endings isGroup raw cfg hids fun n hn e he hsuf => hslash n hn ?_
  have hmem : ∀ e ∈ superEndings, '/' ∈ e.toList := by decide
  exact hsuf.subset (hmem e he)

/-- What both levels leave, before the chains are made one hop. -/
def secondLevel (go : Runtime) (cfg : ViewConfig) (isGroup : Node → Bool) (raw : RawSnapshot) :
    Folding :=
  let s := firstLevel go cfg isGroup raw
  if cfg.threshold < s.kept.length ∨ cfg.zoomBand = "far" then
    collapseLevel go cfg isGroup (cidr16Of cfg s) s
  else s

section Clear

variable (hc : ClearNames cfg isGroup raw)

include hc

variable (go) in
/-- Whether there is a second level can be told from the hosts. -/
theorem folds16_iff : (cfg.threshold < (firstLevel go cfg isGroup raw).kept.length
    ∨ cfg.zoomBand = "far") ↔ Folds16 cfg isGroup raw := by
  obtain ⟨fs, h⟩ := exists_firstFolds go hc
  rw [h.length_kept hc]
  rfl

theorem fits_16 (hfolds : Folds16 cfg isGroup raw) (h : Partition (survivors cfg raw)
      (OpenedFully cfg) 1 (firstLevel go cfg isGroup raw) content) :
    Fits (survivors cfg raw) (OpenedFully cfg) 2 cfg isGroup
      (cidr16Of cfg (firstLevel go cfg isGroup raw)) (firstLevel go cfg isGroup raw).kept := by
  refine ⟨Nat.two_pos, fun n _ hne => ?_, fun p id hid => ?_, fun n hn => ?_,
    fun n _ hhost hfull => .inl ?_⟩
  · unfold cidr16Of at hne ⊢
    simp only [] at hne ⊢
    cases hb : beforeLastDot _ with
    | none =>
      rw [hb] at hne
      exact absurd rfl hne
    | some before => exact proper_16 before
  · obtain ⟨fs, hf⟩ := exists_firstFolds go hc
    exact hc.second hfolds p id ((hf.entries_perm hc p).length_eq ▸ hid)
  · exact Nat.lt_succ_of_le (h.low n hn)
  · -- the /24 of a loose host is open
    have hexp : cfg.isExpanded (primarySubnet24 n ++ ".0/24") = true := by
      unfold ViewConfig.isExpanded
      rw [hfull, Bool.or_true]
    unfold cidr16Of
    rw [h.host_not_super hhost, if_neg Bool.false_ne_true]
    simp only [hexp, if_true, ite_self]
    rfl

variable (go) in
theorem partition_secondLevel : ∃ content, Partition (survivors cfg raw) (OpenedFully cfg) 2
    (secondLevel go cfg isGroup raw) content := by
  obtain ⟨content₁, hp₁⟩ := partition_firstLevel go hc
  unfold secondLevel
  simp only []
  split
  · rename_i hcall
    exact (hp₁.le (Nat.le_succ 1)).collapseLevel go isGroup
      (fits_16 hc ((folds16_iff go hc).mp hcall) hp₁) hc.nodup
  · exact ⟨content₁, hp₁.le (Nat.le_succ 1)⟩

end Clear

/-! ## Once the chains are one hop -/

/-- What a folding says of the hosts once every chain is one hop. -/
structure Represents (hosts : List Node) (full : Node → Prop) (s : Folding)
    (content : String → List Node) : Prop where
  nodup : (s.kept.map Node.ip).Nodup
  split : (s.kept.flatMap fun k => content k.ip).Perm hosts
  packets : ∀ k ∈ s.kept, k.packetCount = ((content k.ip).map Node.packetCount).sum
  bytes : ∀ k ∈ s.kept, k.byteCount = ((content k.ip).map Node.byteCount).sum
  count : ∀ k ∈ s.kept, s.isSuper k.ip = true →
    (s.superHosts.lookup k.ip).getD 0 = (content k.ip).length
  loose : ∀ k ∈ s.kept, s.isSuper k.ip = false → content k.ip = [k]
  roots : ∀ k ∈ s.kept, s.hostToSuper.lookup k.ip = none
  /-- A host folded into a supernode is mapped to it. -/
  owner : ∀ k ∈ s.kept, s.isSuper k.ip = true → ∀ h ∈ content k.ip,
    s.hostToSuper.lookup h.ip = some k.ip
  keys : ∀ a b, s.hostToSuper.lookup a = some b → 0 < superRank hosts a ∨ a ∈ hosts.map Node.ip
  shown : ∀ h ∈ hosts, full h → s.hostToSuper.lookup h.ip = none

theorem Partition.flatten {full : Node → Prop} {r : Nat} (h : Partition hosts full r s content) :
    Represents hosts full { s with hostToSuper := flatten go s.hostToSuper } content := by
  have h2 := h.ranked.twoHops (superRank_le hosts)
  have hlookup : ∀ id, (Etherchimp.flatten go s.hostToSuper).lookup id
      = grandparent s.hostToSuper id := fun id => lookup_shortened h2 (go.rangeOf_perm _) id
  have hnone : ∀ id, s.hostToSuper.lookup id = none →
      (Etherchimp.flatten go s.hostToSuper).lookup id = none := by
    intro id hid
    rw [hlookup]
    unfold grandparent
    rw [hid]
    rfl
  refine
    { nodup := h.nodup, split := h.split, packets := h.packets, bytes := h.bytes
      count := fun k hk hs => ?_, loose := h.loose, roots := fun k hk => hnone _ (h.roots k hk)
      owner := fun k hk hs n hn => ?_, keys := fun a b hab => ?_
      shown := fun n hn hf => hnone _ (h.shown n hn hf) }
  · rw [← h.count k hk]
    unfold Folding.memberHostCount
    exact (if_pos (isSuper_iff.mp hs)).symm
  · have hne : n.ip ≠ k.ip := by
      intro he
      have hn : n ∈ hosts := h.split.mem_iff.mp (List.mem_flatMap.mpr ⟨k, hk, hn⟩)
      have := h.supers k.ip hs
      rw [← he, superRank_host hn] at this
      exact absurd this (Nat.lt_irrefl 0)
    exact (hlookup n.ip).trans ((h.leads k hk n hn).grandparent h2 (h.roots k hk) hne)
  · rw [hlookup] at hab
    obtain ⟨c, hc, -⟩ := Option.map_eq_some_iff.mp hab
    exact h.keys a c hc

theorem represents_start (hids : (hosts.map Node.ip).Nodup) (full : Node → Prop)
    (visible : KeyedMap String Nat) :
    ∃ content, Represents hosts full { kept := hosts, visible := visible } content := by
  have h := partition_start hids full visible
  exact ⟨fun id => hosts.filter fun h => h.ip = id,
    { nodup := h.nodup, split := h.split, packets := h.packets, bytes := h.bytes
      count := fun k _ hs => absurd hs Bool.false_ne_true
      loose := h.loose, roots := h.roots
      owner := fun k _ hs => absurd hs Bool.false_ne_true
      keys := h.keys, shown := h.shown }⟩

/-- **Aggregation represents every host once.** -/
theorem represents_aggregate (hc : ClearNames cfg isGroup raw) :
    ∃ content, Represents (survivors cfg raw) (OpenedFully cfg)
      (aggregate go cfg isGroup (unfolded cfg raw)) content := by
  obtain ⟨content, hp⟩ := partition_secondLevel go hc
  exact ⟨content, hp.flatten⟩

theorem represents_foldedView (vs : Option ViewState) (hc : ClearNames cfg isGroup raw) :
    ∃ content, Represents (survivors cfg raw) (OpenedFully cfg)
      (foldedView go raw cfg isGroup vs) content := by
  unfold foldedView
  simp only []
  split
  · exact represents_aggregate hc
  · exact represents_start hc.nodup _ _

theorem plain_foldedView {vs : Option ViewState}
    (hc : ClearNames cfg isGroup raw) {k : Node}
    (hk : k ∈ (foldedView go raw cfg isGroup vs).kept) : k ∈ survivors cfg raw ∨ Plain k.ip := by
  unfold foldedView at hk
  simp only [] at hk
  split at hk
  · have h₁ : ∀ k ∈ (collapseLevel go cfg isGroup
        (cidr24Of { kept := survivors cfg raw, visible := (visibleTraffic cfg raw).visible })
        { kept := survivors cfg raw, visible := (visibleTraffic cfg raw).visible }).kept,
        k ∈ survivors cfg raw ∨ Plain k.ip :=
      fun k hk => plain_collapseLevel (fun k hk => .inl hk) (fun n _ => plain_cidr24Of n) hk
    obtain ⟨content, hpart⟩ := partition_firstLevel go hc
    unfold aggregate at hk
    simp only [] at hk
    split at hk
    · refine plain_collapseLevel h₁ (fun n hn => plain_cidr16Of fun hs => ?_) hk
      -- a supernode is no host
      refine (h₁ n hn).resolve_left fun hhost => ?_
      exact Bool.false_ne_true ((hpart.host_not_super hhost).symm.trans hs)
    · exact h₁ k hk
  · exact .inl hk

end Aggregate

end Etherchimp
