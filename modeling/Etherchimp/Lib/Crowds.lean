import Mathlib.Data.List.Dedup
import Mathlib.Data.List.Perm.Basic
import Etherchimp.Lib.Grouping
import Etherchimp.Lib.Runtime

/-!
# Crowds

A list is thinned out by a key: the elements of a key that has at least `k` of them make
room for one that stands for them all, and the others stay.

What is left is the same for every order of the list, up to its own order. A loop that
groups the elements with their places, and drops the places of the groups it has merged,
leaves it too.
-/

namespace Crowds

variable {α κ : Type} [DecidableEq κ] (keyOf : α → Option κ) (k : Nat)

/-- The elements of a key. -/
def members (l : List α) (c : κ) : List α := l.filter fun a => keyOf a = some c

/-- The keys with at least `k` elements. -/
def crowded (l : List α) : List κ :=
  (l.filterMap keyOf).dedup.filter fun c => k ≤ (members keyOf l c).length

/-- The elements that are in no crowd. -/
def loose (l : List α) : List α := l.filter fun a => !(keyOf a).any (· ∈ crowded keyOf k l)

/-- One element for every crowd, and the loose ones. -/
def settle (merge : κ → List α → α) (l : List α) : List α :=
  (crowded keyOf k l).map (fun c => merge c (members keyOf l c)) ++ loose keyOf k l

variable {keyOf k} {l l' : List α} {c : κ} {merge : κ → List α → α}

theorem mem_crowded :
    c ∈ crowded keyOf k l ↔ (∃ a ∈ l, keyOf a = some c) ∧ k ≤ (members keyOf l c).length := by
  rw [crowded, List.mem_filter, List.mem_dedup, List.mem_filterMap, decide_eq_true_eq]

theorem crowded_nodup : (crowded keyOf k l).Nodup := (List.nodup_dedup _).filter _

/-! ## The order of the list -/

section Order

variable {β : Type} {f : α → β}

/-- A map that keeps the keys keeps the elements of a key. -/
theorem members_perm {keyOf' : β → Option κ} (hkey : ∀ a, keyOf' (f a) = keyOf a)
    (h : (l.map f).Perm (l'.map f)) (c : κ) :
    ((members keyOf l c).map f).Perm ((members keyOf l' c).map f) := by
  have hmap : ∀ l : List α, (members keyOf l c).map f = members keyOf' (l.map f) c := by
    intro l
    unfold members
    rw [List.filter_map]
    refine congrArg _ (List.filter_congr fun a _ => ?_)
    show _ = decide (keyOf' (f a) = some c)
    rw [hkey]
  rw [hmap, hmap]
  exact h.filter _

theorem crowded_perm {keyOf' : β → Option κ} (hkey : ∀ a, keyOf' (f a) = keyOf a)
    (h : (l.map f).Perm (l'.map f)) : (crowded keyOf k l).Perm (crowded keyOf k l') := by
  have hkeys : ∀ l : List α, l.filterMap keyOf = (l.map f).filterMap keyOf' := by
    intro l
    rw [List.filterMap_map]
    exact List.filterMap_congr fun a _ => (hkey a).symm
  have hlen : ∀ c, (members keyOf l c).length = (members keyOf l' c).length := by
    intro c
    have hl := (members_perm hkey h c).length_eq
    rwa [List.length_map, List.length_map] at hl
  unfold crowded
  rw [hkeys, hkeys]
  refine ((h.filterMap keyOf').dedup.filter _).trans (List.Perm.of_eq ?_)
  exact List.filter_congr fun c _ => by rw [hlen]

/-- What is left does not depend on the order of the list. -/
theorem settle_perm {keyOf' : β → Option κ} (hkey : ∀ a, keyOf' (f a) = keyOf a)
    (hmerge : ∀ c l l', (List.map f l).Perm (List.map f l') → f (merge c l) = f (merge c l'))
    (h : (l.map f).Perm (l'.map f)) :
    ((settle keyOf k merge l).map f).Perm ((settle keyOf k merge l').map f) := by
  have hcrowded := crowded_perm (k := k) hkey h
  unfold settle
  rw [List.map_append, List.map_append, List.map_map, List.map_map]
  refine List.Perm.append ?_ ?_
  · refine (hcrowded.map _).trans (List.Perm.of_eq ?_)
    exact List.map_congr_left fun c _ => hmerge c _ _ (members_perm hkey h c)
  · have hloose : ∀ l₀ : List α, (loose keyOf k l₀).map f
        = (l₀.map f).filter fun b => !(keyOf' b).any (· ∈ crowded keyOf k l₀) := by
      intro l₀
      unfold loose
      rw [List.filter_map]
      refine congrArg _ (List.filter_congr fun a _ => ?_)
      show _ = !(keyOf' (f a)).any (· ∈ crowded keyOf k l₀)
      rw [hkey]
    rw [hloose, hloose]
    refine (h.filter _).trans (List.Perm.of_eq (List.filter_congr fun b _ => ?_))
    simp only [hcrowded.mem_iff]

end Order

/-! ## Groups of places -/

section Places

variable (keyOf) in
/-- The elements that have a key, with the key and their place. -/
def placed (l : List α) : List (κ × α × Nat) :=
  l.zipIdx.filterMap fun m => (keyOf m.1).map (·, m)

omit [DecidableEq κ] in
theorem mem_placed {m : α × Nat} :
    (c, m) ∈ placed keyOf l ↔ m ∈ l.zipIdx ∧ keyOf m.1 = some c := by
  unfold placed
  rw [List.mem_filterMap]
  constructor
  · rintro ⟨m', hm', he⟩
    obtain ⟨c', hc', he⟩ := Option.map_eq_some_iff.mp he
    obtain ⟨rfl, rfl⟩ := Prod.mk.inj he
    exact ⟨hm', hc'⟩
  · rintro ⟨hm, hc⟩
    exact ⟨m, hm, by rw [hc, Option.map_some]⟩

variable (keyOf) in
/-- The placed elements of a key, without their places. -/
theorem map_placed (l : List α) (c : κ) :
    ((placed keyOf l).filter fun p => p.1 = c).map (fun p => p.2.1) = members keyOf l c := by
  have key : ∀ (l : List α) (i : Nat),
      (((l.zipIdx i).filterMap fun m => (keyOf m.1).map (·, m)).filter fun p => p.1 = c).map
        (fun p => p.2.1) = members keyOf l c := by
    intro l
    induction l with
    | nil => exact fun i => rfl
    | cons a l ih =>
      intro i
      rw [List.zipIdx_cons, members, List.filter_cons, ← members, ← ih (i + 1)]
      cases ha : keyOf a with
      | none => simp [ha]
      | some c' =>
        by_cases hc : c' = c
        · simp [ha, hc]
        · simp [ha, hc]
  exact key l 0

variable (go : Runtime)

/-- The groups of at least `k` placed elements. -/
def bigGroups (keyOf : α → Option κ) (k : Nat) (l : List α) :
    List (Sigma fun _ : κ => List (α × Nat)) :=
  (go.rangeOf (Grouping.groups Prod.fst Prod.snd (placed keyOf l))).filter fun g => k ≤ g.2.length

variable {go}

theorem mem_bigGroups {g : Sigma fun _ : κ => List (α × Nat)} (hg : g ∈ bigGroups go keyOf k l) :
    g.2 = ((placed keyOf l).filter fun p => p.1 = g.1).map Prod.snd
      ∧ g.2.map Prod.fst = members keyOf l g.1 ∧ k ≤ g.2.length := by
  obtain ⟨hin, hbig⟩ := List.mem_filter.mp hg
  have hlookup := (go.mem_rangeOf).mp hin
  have hmembers := Grouping.lookup_groups Prod.fst Prod.snd hlookup
  refine ⟨hmembers, ?_, of_decide_eq_true hbig⟩
  rw [hmembers, List.map_map]
  exact map_placed keyOf l g.1

variable (go) in
/-- The big groups are the crowds. -/
theorem keys_bigGroups : ((bigGroups go keyOf k l).map Sigma.fst).Perm (crowded keyOf k l) := by
  have hkeys : ((go.rangeOf (Grouping.groups Prod.fst Prod.snd (placed keyOf l))).map
      Sigma.fst).Nodup :=
    ((go.rangeOf_perm _).map Sigma.fst).nodup_iff.mpr (AList.keys_nodup _)
  have hnodup := hkeys.sublist ((List.filter_sublist (p := fun g => k ≤ g.2.length)).map Sigma.fst)
  refine (List.perm_ext_iff_of_nodup hnodup crowded_nodup).mpr fun c => ?_
  rw [mem_crowded]
  constructor
  · intro hc
    obtain ⟨g, hg, rfl⟩ := List.mem_map.mp hc
    obtain ⟨-, hm, hbig⟩ := mem_bigGroups hg
    rw [← hm, List.length_map]
    refine ⟨?_, hbig⟩
    have hl := (go.mem_rangeOf).mp (List.mem_filter.mp hg).1
    obtain ⟨p, hp, hpc⟩ := (Grouping.isSome_lookup_groups Prod.fst Prod.snd (placed keyOf l) g.1).mp
      (Option.isSome_iff_exists.mpr ⟨g.2, hl⟩)
    obtain ⟨hz, hk⟩ := mem_placed.mp (show (p.1, p.2) ∈ placed keyOf l from hp)
    exact ⟨p.2.1, List.mem_of_getElem? (List.mk_mem_zipIdx_iff_getElem?.mp hz), hpc ▸ hk⟩
  · rintro ⟨⟨a, ha, hac⟩, hbig⟩
    obtain ⟨i, hi⟩ := List.mem_iff_getElem?.mp ha
    have hp : (c, (a, i)) ∈ placed keyOf l :=
      mem_placed.mpr ⟨List.mk_mem_zipIdx_iff_getElem?.mpr hi, hac⟩
    have hl := Grouping.lookup_groups_of_mem Prod.fst Prod.snd hp
    refine List.mem_map.mpr ⟨⟨c, _⟩, List.mem_filter.mpr ⟨(go.mem_rangeOf).mpr hl, ?_⟩, rfl⟩
    rw [decide_eq_true_eq, List.length_map]
    have hlen := congrArg List.length (map_placed keyOf l c)
    rw [List.length_map] at hlen
    exact hlen.symm ▸ hbig

/-- Merging the big groups merges the crowds. -/
theorem merge_bigGroups :
    ((bigGroups go keyOf k l).map fun g => merge g.1 (g.2.map Prod.fst)).Perm
      ((crowded keyOf k l).map fun c => merge c (members keyOf l c)) := by
  have hkeys : (((bigGroups go keyOf k l).map Sigma.fst).map
      fun c => merge c (members keyOf l c)).Perm _ := (keys_bigGroups go).map _
  refine List.Perm.trans (List.Perm.of_eq ?_) hkeys
  rw [List.map_map]
  refine List.map_congr_left fun g hg => ?_
  show merge g.1 _ = merge g.1 (members keyOf l g.1)
  rw [(mem_bigGroups hg).2.1]

/-- Dropping the places of the big groups leaves the loose elements. -/
theorem drop_bigGroups :
    (l.zipIdx.filter fun m => m.2 ∉ (bigGroups go keyOf k l).flatMap fun g => g.2.map Prod.snd).map
      Prod.fst = loose keyOf k l := by
  have hplace : ∀ m ∈ l.zipIdx, (m.2 ∈ (bigGroups go keyOf k l).flatMap fun g => g.2.map Prod.snd)
      ↔ ∃ c ∈ crowded keyOf k l, keyOf m.1 = some c := by
    intro m hm
    rw [List.mem_flatMap]
    constructor
    · rintro ⟨g, hg, hin⟩
      obtain ⟨m', hm', he⟩ := List.mem_map.mp hin
      rw [(mem_bigGroups hg).1] at hm'
      obtain ⟨p, hp, rfl⟩ := List.mem_map.mp hm'
      obtain ⟨hin, hkey⟩ := List.mem_filter.mp hp
      obtain ⟨hz, hk⟩ := mem_placed.mp (show (p.1, p.2) ∈ placed keyOf l from hin)
      -- one place holds one element
      have hsame : m.1 = p.2.1 := by
        have h1 := List.mk_mem_zipIdx_iff_getElem?.mp hz
        have h2 := List.mk_mem_zipIdx_iff_getElem?.mp hm
        rw [he, h2] at h1
        exact Option.some.inj h1
      refine ⟨g.1, (keys_bigGroups go).mem_iff.mp (List.mem_map_of_mem hg), ?_⟩
      rw [hsame, hk, of_decide_eq_true hkey]
    · rintro ⟨c, hc, hk⟩
      obtain ⟨g, hg, rfl⟩ := List.mem_map.mp ((keys_bigGroups go).mem_iff.mpr hc)
      refine ⟨g, hg, List.mem_map.mpr ⟨m, ?_, rfl⟩⟩
      rw [(mem_bigGroups hg).1]
      exact List.mem_map.mpr ⟨(g.1, m),
        List.mem_filter.mpr ⟨mem_placed.mpr ⟨hm, hk⟩, decide_eq_true rfl⟩, rfl⟩
  have hfilter : (l.zipIdx.filter fun m =>
        m.2 ∉ (bigGroups go keyOf k l).flatMap fun g => g.2.map Prod.snd)
      = l.zipIdx.filter ((fun a => !(keyOf a).any (· ∈ crowded keyOf k l)) ∘ Prod.fst) := by
    refine List.filter_congr fun m hm => ?_
    rw [Bool.eq_iff_iff, decide_eq_true_eq, hplace m hm, Function.comp_apply, Bool.not_eq_true',
      ← Bool.not_eq_true, not_iff_not, Option.any_eq_true]
    simp only [decide_eq_true_eq]
    exact exists_congr fun c => and_comm
  rw [hfilter, ← List.filter_map, List.zipIdx_map_fst]
  rfl

end Places

end Crowds
