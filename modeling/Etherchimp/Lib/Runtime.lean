import Mathlib.Data.List.Sort
import Etherchimp.Lib.KeyedMap

/-!
# What a language leaves open

A range loop visits a map in any order, and a sort that is not stable puts equal
elements in any order. A `Runtime` is one way of filling in both. A program that
takes it as an argument is all the programs an implementation may run, and a
result for every runtime holds of each of them.

A sort is asked to order its list only by a comparison that is a total preorder.
When the comparison tells any two elements apart, the result is the same for
every runtime and for every order of the input.
-/

/-- A comparison "comes before" that leaves no two elements incomparable in a cycle. -/
structure Preorders {α : Type} (less : α → α → Bool) : Prop where
  total : ∀ a b, less a b = false ∨ less b a = false
  trans : ∀ a b c, less b a = false → less c b = false → less c a = false

theorem Preorders.irrefl {α : Type} {less : α → α → Bool} (h : Preorders less) (a : α) :
    less a a = false := (h.total a a).elim id id

/-- The greater count first, then the smaller name. -/
structure ByCount {α β : Type} [LinearOrder β] (less : α → α → Bool) (count : α → β)
    (name : α → String) : Prop where
  iff : ∀ a b, less a b = true ↔ count b < count a ∨ count a = count b ∧ name a < name b

section ByCount

variable {α β : Type} [LinearOrder β] {less : α → α → Bool} {count : α → β} {name : α → String}

theorem ByCount.not_less (h : ByCount less count name) {a b : α} :
    less a b = false ↔ count a ≤ count b ∧ (count a = count b → ¬ name a < name b) := by
  rw [← Bool.not_eq_true, h.iff, not_or, not_lt, not_and]

theorem ByCount.preorders (h : ByCount less count name) : Preorders less where
  total a b := by
    by_contra hne
    rw [not_or, h.not_less, h.not_less, not_and_or, not_and_or] at hne
    rcases hne with ⟨hab | hab, hba | hba⟩
    · exact absurd (le_of_lt (not_le.mp hab)) (not_le.mpr (not_le.mp hba))
    · rw [Classical.not_imp] at hba
      exact hab (le_of_eq hba.1.symm)
    · rw [Classical.not_imp] at hab
      exact hba (le_of_eq hab.1.symm)
    · rw [Classical.not_imp, not_not] at hab hba
      exact String.lt_asymm hab.2 hba.2
  trans a b c hba hcb := by
    rw [h.not_less] at hba hcb ⊢
    refine ⟨le_trans hcb.1 hba.1, fun hca hlt => ?_⟩
    have hbc : count c = count b := le_antisymm hcb.1 (hca ▸ hba.1)
    have hab : count b = count a := hbc.symm.trans hca
    -- names compare as the counts leave it to them
    rcases Std.lt_trichotomy (name b) (name a) with hn | hn | hn
    · exact hba.2 hab hn
    · exact hcb.2 hbc (hn ▸ hlt)
    · exact hcb.2 hbc (String.lt_trans hlt hn)

/-- Only elements of one count and one name are left in any order. -/
theorem ByCount.eq_of_ties (h : ByCount less count name) {a b : α} (hab : less a b = false)
    (hba : less b a = false) : count a = count b ∧ name a = name b := by
  rw [h.not_less] at hab hba
  have hc : count a = count b := le_antisymm hab.1 hba.1
  refine ⟨hc, ?_⟩
  rcases Std.lt_trichotomy (name a) (name b) with hn | hn | hn
  · exact absurd hn (hab.2 hc)
  · exact hn
  · exact absurd hn (hba.2 hc.symm)

end ByCount

/-- How maps are ranged over and lists sorted. -/
structure Runtime where
  rangeOf : {κ ν : Type} → KeyedMap κ ν → List (Sigma fun _ : κ => ν)
  sortSlice : {α : Type} → (α → α → Bool) → List α → List α
  rangeOf_perm : ∀ {κ ν : Type} (m : KeyedMap κ ν), (rangeOf m).Perm m.entries
  sortSlice_perm : ∀ {α : Type} (less : α → α → Bool) (l : List α), (sortSlice less l).Perm l
  sortSlice_sorted : ∀ {α : Type} {less : α → α → Bool} (_ : Preorders less) (l : List α),
    (sortSlice less l).Pairwise fun a b => less b a = false

namespace Runtime

/-- Maps in the order their keys were first stored, and a stable sort. -/
def stable : Runtime where
  rangeOf m := m.entries
  sortSlice less l := l.insertionSort fun a b => less b a = false
  rangeOf_perm _ := List.Perm.refl _
  sortSlice_perm _ _ := List.perm_insertionSort _ _
  sortSlice_sorted {_ less} h l := by
    have htotal : Std.Total fun a b => less b a = false := ⟨fun a b => (h.total a b).symm⟩
    have htrans : IsTrans _ fun a b => less b a = false := ⟨h.trans⟩
    exact List.pairwise_insertionSort _ l

variable (go : Runtime) {α : Type} {less : α → α → Bool} {l l' : List α} {a : α}

@[simp] theorem mem_sortSlice : a ∈ go.sortSlice less l ↔ a ∈ l :=
  (go.sortSlice_perm less l).mem_iff

@[simp] theorem length_sortSlice : (go.sortSlice less l).length = l.length :=
  (go.sortSlice_perm less l).length_eq

theorem mem_rangeOf {κ ν : Type} [DecidableEq κ] {m : KeyedMap κ ν} {k : κ} {x : ν} :
    (⟨k, x⟩ : Sigma fun _ : κ => ν) ∈ go.rangeOf m ↔ m.lookup k = some x := by
  rw [(go.rangeOf_perm m).mem_iff]
  exact KeyedMap.mem_entries_iff m k x

/--
**A sort that leaves no ties is determined**: whatever the runtime and whatever the
order of the input.
-/
theorem sortSlice_eq (go' : Runtime) (h : Preorders less) (hp : l.Perm l')
    (hne : ∀ a ∈ l, ∀ b ∈ l, less a b = false → less b a = false → a = b) :
    go.sortSlice less l = go'.sortSlice less l' := by
  have hperm : (go.sortSlice less l).Perm (go'.sortSlice less l') :=
    ((go.sortSlice_perm less l).trans hp).trans (go'.sortSlice_perm less l').symm
  refine hperm.eq_of_pairwise ?_ (go.sortSlice_sorted h l) (go'.sortSlice_sorted h l')
  intro a b ha hb hab hba
  have hb : b ∈ l := hp.mem_iff.mpr ((go'.mem_sortSlice).mp hb)
  exact hne a ((go.mem_sortSlice).mp ha) b hb hba hab

end Runtime
