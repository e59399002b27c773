import Etherchimp.Lib.KeyedMap

/-!
# Inverted indexes

An index keeps, for each key, the set of items filed under it, and no key whose
set is empty. `add` files one item under one key and `remove` takes it out again,
dropping the set with its last item.

`Exact R idx` says that the index holds exactly the pairs of the relation `R`. An
index that is kept up step by step stays exact when every step adds and removes
the pairs by which the relation changes.
-/

universe u v

/-- For each key, the set of items under it. -/
abbrev SetIndex (κ : Type u) (ι : Type v) := KeyedMap κ (KeyedMap ι Bool)

namespace SetIndex

variable {κ : Type u} {ι : Type v} [DecidableEq κ]

section Exact

/-- The index holds exactly the pairs of `R`. -/
structure Exact (R : κ → ι → Prop) (idx : SetIndex κ ι) : Prop where
  absent : ∀ a, idx.lookup a = none → ∀ x, ¬ R a x
  nonempty : ∀ a set, idx.lookup a = some set → ∃ x, R a x
  members : ∀ a set, idx.lookup a = some set → ∀ x, x ∈ set ↔ R a x

variable {R R' : κ → ι → Prop} {idx : SetIndex κ ι}

theorem exact_empty : Exact (fun (_ : κ) (_ : ι) => False) ∅ where
  absent _ _ _ h := h
  nonempty _ _ h := by cases h
  members _ _ h := by cases h

theorem Exact.congr (h : Exact R idx) (hR : ∀ a x, R a x ↔ R' a x) : Exact R' idx where
  absent a hl x hx := h.absent a hl x ((hR a x).mpr hx)
  nonempty a set hl := (h.nonempty a set hl).imp fun x => (hR a x).mp
  members a set hl x := (h.members a set hl x).trans (hR a x)

/-- A key is present exactly when something is filed under it. -/
theorem Exact.present_iff (h : Exact R idx) (a : κ) :
    (∃ set, idx.lookup a = some set) ↔ ∃ x, R a x := by
  constructor
  · rintro ⟨set, hl⟩
    exact h.nonempty a set hl
  · rintro ⟨x, hx⟩
    cases hl : idx.lookup a with
    | none => exact absurd hx (h.absent a hl x)
    | some set => exact ⟨set, rfl⟩

end Exact

variable [DecidableEq ι]

/-- File an item under a key. -/
def add (idx : SetIndex κ ι) (x : ι) (a : κ) : SetIndex κ ι :=
  idx.insert a (((idx.lookup a).getD ∅).insert x true)

/-- Take an item out from under a key, and the key's set when it was the last. -/
def remove (idx : SetIndex κ ι) (x : ι) (a : κ) : SetIndex κ ι :=
  match idx.lookup a with
  | none => idx
  | some set =>
      let set := set.erase x
      if set.entries = [] then idx.erase a else idx.insert a set

variable {R : κ → ι → Prop} {idx : SetIndex κ ι}

theorem mem_insert_iff (set : KeyedMap ι Bool) (x y : ι) : y ∈ set.insert x true ↔ y = x ∨ y ∈ set :=
  AList.mem_insert set

theorem mem_erase_iff (set : KeyedMap ι Bool) (x y : ι) : y ∈ set.erase x ↔ y ≠ x ∧ y ∈ set :=
  AList.mem_erase

/-- Adding files one more pair. -/
theorem Exact.add (h : Exact R idx) (x : ι) (a : κ) :
    Exact (fun b y => R b y ∨ (b = a ∧ y = x)) (add idx x a) where
  absent b hl y := by
    unfold SetIndex.add at hl
    rw [KeyedMap.lookup_insert_eq] at hl
    split at hl
    · cases hl
    · rename_i hb
      rintro (hy | ⟨hba, -⟩)
      · exact h.absent b hl y hy
      · exact hb hba
  nonempty b set hl := by
    unfold SetIndex.add at hl
    rw [KeyedMap.lookup_insert_eq] at hl
    split at hl
    · rename_i hb
      exact ⟨x, Or.inr ⟨hb, rfl⟩⟩
    · obtain ⟨y, hy⟩ := h.nonempty b set hl
      exact ⟨y, Or.inl hy⟩
  members b set hl y := by
    unfold SetIndex.add at hl
    rw [KeyedMap.lookup_insert_eq] at hl
    split at hl
    · rename_i hb
      subst hb
      cases hl
      rw [mem_insert_iff]
      cases hs : idx.lookup b with
      | none =>
        have hno := h.absent b hs y
        simp [hno]
      | some set =>
        rw [Option.getD_some, h.members b set hs y]
        simp [or_comm]
    · rename_i hb
      rw [h.members b set hl y]
      exact (or_iff_left fun hba => hb hba.1).symm

/-- Removing takes one pair away. -/
theorem Exact.remove (h : Exact R idx) (x : ι) (a : κ) :
    Exact (fun b y => R b y ∧ ¬ (b = a ∧ y = x)) (remove idx x a) := by
  unfold SetIndex.remove
  cases hl : idx.lookup a with
  | none =>
    refine h.congr fun b y => ⟨fun hy => ⟨hy, ?_⟩, And.left⟩
    rintro ⟨rfl, -⟩
    exact h.absent b hl y hy
  | some set =>
    have hmem := h.members a set hl
    dsimp only
    by_cases hlast : (set.erase x).entries = []
    · -- nothing but `x` was filed under the key
      have hnone : ∀ y, y ∉ set.erase x := by
        intro y hy
        have hk := AList.mem_keys.mp hy
        rw [AList.keys, hlast] at hk
        cases hk
      have honly : ∀ y, R a y → y = x := by
        intro y hy
        by_contra hne
        exact hnone y ((mem_erase_iff set x y).mpr ⟨hne, (hmem y).mpr hy⟩)
      rw [if_pos hlast]
      constructor
      · intro b hb y
        rw [KeyedMap.lookup_erase_eq] at hb
        split at hb
        · rename_i hba
          subst hba
          exact fun hy => hy.2 ⟨rfl, honly y hy.1⟩
        · exact fun hy => h.absent b hb y hy.1
      · intro b s hb
        rw [KeyedMap.lookup_erase_eq] at hb
        split at hb
        · cases hb
        · rename_i hba
          obtain ⟨y, hy⟩ := h.nonempty b s hb
          exact ⟨y, hy, fun hc => hba hc.1⟩
      · intro b s hb y
        rw [KeyedMap.lookup_erase_eq] at hb
        split at hb
        · cases hb
        · rename_i hba
          rw [h.members b s hb y]
          exact (and_iff_left fun hc => hba hc.1).symm
    · have hmore : ∃ y, y ∈ set.erase x := by
        obtain ⟨e, he⟩ := List.exists_mem_of_ne_nil _ hlast
        exact ⟨e.1, AList.mem_keys.mpr (List.mem_map_of_mem he)⟩
      rw [if_neg hlast]
      constructor
      · intro b hb y
        rw [KeyedMap.lookup_insert_eq] at hb
        split at hb
        · cases hb
        · exact fun hy => h.absent b hb y hy.1
      · intro b s hb
        rw [KeyedMap.lookup_insert_eq] at hb
        split at hb
        · rename_i hba
          subst hba
          obtain ⟨y, hy⟩ := hmore
          obtain ⟨hne, hy⟩ := (mem_erase_iff set x y).mp hy
          exact ⟨y, (hmem y).mp hy, fun hc => hne hc.2⟩
        · rename_i hba
          obtain ⟨y, hy⟩ := h.nonempty b s hb
          exact ⟨y, hy, fun hc => hba hc.1⟩
      · intro b s hb y
        rw [KeyedMap.lookup_insert_eq] at hb
        split at hb
        · rename_i hba
          subst hba
          cases hb
          rw [mem_erase_iff, hmem y]
          simp [and_comm]
        · rename_i hba
          rw [h.members b s hb y]
          exact (and_iff_left fun hc => hba hc.1).symm

end SetIndex
