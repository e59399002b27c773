import Etherchimp.Proof.Folding

/-!
# The names of supernodes

A supernode is named after the subnet of one of its members, so its name is digits,
dots, a slash and perhaps a `+`: it never contains the separator of edge ids.
-/

namespace Etherchimp

open Grouping

/-! ## Text without angle brackets -/

/-- The text has none of the separator's brackets. -/
def Plain (s : String) : Prop := '<' ∉ s.toList

instance (s : String) : Decidable (Plain s) := inferInstanceAs (Decidable (¬ _))

theorem Plain.sepFree {s : String} (h : Plain s) : SepFree s :=
  fun hs => h (hs.subset (by decide))

theorem Plain.append {s t : String} (hs : Plain s) (ht : Plain t) : Plain (s ++ t) := by
  unfold Plain
  rw [String.toList_append, List.mem_append]
  exact not_or.mpr ⟨hs, ht⟩

theorem plain_repr (n : Nat) : Plain n.repr := by
  unfold Plain
  rw [Nat.toList_repr]
  intro h
  exact absurd (Nat.isDigit_of_mem_toDigits (by decide) (by decide) h) (by decide)

theorem plain_subnet24 (ip : String) : Plain (subnet24 ip) := by
  unfold subnet24
  split
  · exact List.not_mem_nil
  · split
    · exact List.not_mem_nil
    · exact ((((plain_repr _).append (by decide)).append (plain_repr _)).append (by decide)).append
        (plain_repr _)

theorem plain_primarySubnet24 (n : Node) : Plain (primarySubnet24 n) := by
  unfold primarySubnet24
  split <;> exact plain_subnet24 _

theorem plain_trimSuffix {s : String} (h : Plain s) (suffix : String) : Plain (trimSuffix s suffix) := by
  unfold trimSuffix
  split
  · unfold Plain
    rw [String.toList_ofList]
    exact fun hin => h ((List.take_sublist _ _).mem hin)
  · exact h

theorem plain_beforeLastDot {s before : String} (h : Plain s) (hb : beforeLastDot s = some before) :
    Plain before := by
  unfold beforeLastDot at hb
  split at hb
  · exact absurd hb nofun
  · rename_i c l hl
    rw [← Option.some.inj hb]
    unfold Plain
    rw [String.toList_ofList, List.mem_reverse]
    intro hin
    have hsub := (List.dropWhile_sublist (fun c => decide (c ≠ '.')) (l := s.toList.reverse))
    rw [hl] at hsub
    exact h (List.mem_reverse.mp (hsub.mem (List.mem_cons_of_mem _ hin)))

/-! ## Where names come from -/

section Names

variable {go : Runtime} {cfg : ViewConfig} {isGroup : Node → Bool} {cidrOf : Node → String}
  {s : Folding}

theorem mem_supers_foldl {gs : List (Sigma fun _ : String => List Member)} {l : Level} {k : Node}
    (hk : k ∈ (gs.foldl (Level.foldGroup go cfg) l).supers) :
    k ∈ l.supers ∨ ∃ g ∈ gs, k.ip = g.1 ∨ k.ip = residualSuperID g.1 := by
  induction gs generalizing l with
  | nil => exact .inl hk
  | cons g gs ih =>
    rcases ih hk with hk | ⟨g', hg', hn⟩
    · unfold Level.foldGroup at hk
      cases hp : planGroup go cfg l.folding.visible g with
      | none =>
        rw [hp] at hk
        exact .inl hk
      | some f =>
        rw [hp] at hk
        rcases List.mem_append.mp hk with hk | hk
        · exact .inl hk
        · rw [List.mem_singleton.mp hk]
          exact .inr ⟨g, List.mem_cons_self, (planGroup_some hp).name⟩
    · exact .inr ⟨g', List.mem_cons_of_mem _ hg', hn⟩

/-- A node after a level was there before, or is named after the subnet of a node that was. -/
theorem mem_collapseLevel {k : Node} (hk : k ∈ (collapseLevel go cfg isGroup cidrOf s).kept) :
    k ∈ s.kept ∨ ∃ n ∈ s.kept, cidrOf n ≠ ""
      ∧ (k.ip = cidrOf n ∨ k.ip = residualSuperID (cidrOf n)) := by
  rcases List.mem_append.mp hk with hk | hk
  · rcases mem_supers_foldl hk with hk | ⟨g, hg, hn⟩
    · exact absurd hk List.not_mem_nil
    · have hsome := Option.isSome_of_eq_some ((go.mem_rangeOf).mp hg)
      obtain ⟨⟨c, m⟩, hcm, hc⟩ := (isSome_lookup_groups Prod.fst Prod.snd _ g.1).mp hsome
      obtain ⟨hm, -, hcidr, hne⟩ := mem_subnetMembers.mp hcm
      have hname : cidrOf m.1 = g.1 := hcidr.trans hc
      refine .inr ⟨m.1, mem_kept_of_zipIdx hm, hcidr.symm ▸ hne, ?_⟩
      rw [hname]
      exact hn
  · obtain ⟨m, hm, rfl⟩ := List.mem_map.mp hk
    exact .inl (mem_kept_of_zipIdx (List.mem_filter.mp hm).1)

theorem plain_cidr24Of (n : Node) : Plain (cidr24Of s n) := by
  unfold cidr24Of
  simp only []
  split
  · exact List.not_mem_nil
  · split
    · exact List.not_mem_nil
    · exact (plain_primarySubnet24 n).append (by decide)

theorem plain_cidr16Of {n : Node} (h : s.isSuper n.ip = true → Plain n.ip) :
    Plain (cidr16Of cfg s n) := by
  unfold cidr16Of
  simp only []
  generalize hnet : (if s.isSuper n.ip = true then _ else _) = net
  have hplain : Plain net := by
    rw [← hnet]
    by_cases hs : s.isSuper n.ip = true
    · rw [if_pos hs]
      have hbase : Plain (baseCIDR n.ip) := plain_trimSuffix (h hs) "+"
      split
      · exact List.not_mem_nil
      · split
        · exact List.not_mem_nil
        · exact plain_trimSuffix hbase ".0/24"
    · rw [if_neg hs]
      split
      · exact List.not_mem_nil
      · split
        · exact List.not_mem_nil
        · exact plain_primarySubnet24 n
  cases hb : beforeLastDot net with
  | none => exact List.not_mem_nil
  | some before => exact (plain_beforeLastDot hplain hb).append (by decide)

/-- A kept node is a host, or its name is plain. -/
theorem plain_collapseLevel {hosts : List Node} (hold : ∀ k ∈ s.kept, k ∈ hosts ∨ Plain k.ip)
    (hcidr : ∀ n ∈ s.kept, Plain (cidrOf n)) {k : Node}
    (hk : k ∈ (collapseLevel go cfg isGroup cidrOf s).kept) : k ∈ hosts ∨ Plain k.ip := by
  rcases mem_collapseLevel hk with hk | ⟨n, hn, -, hname⟩
  · exact hold k hk
  · right
    rcases hname with hname | hname
    · rw [hname]
      exact hcidr n hn
    · rw [hname]
      exact (hcidr n hn).append (by decide)

end Names

end Etherchimp
