import Etherchimp.Lib.KeyedMap

/-!
# Grouping a list by a key

A loop that appends each element to the list its key stands for builds a map from
keys to groups. Every group is the sublist of the elements with that key, in order,
and only keys of elements have one.

The first section is about loops that only ever add to what they build.
-/

namespace Grouping

section Adding

variable {σ α : Type} {f : σ → α → σ} {P : σ → Prop}

/-- What every step keeps, a fold keeps. -/
theorem foldl_keeps (keep : ∀ s a, P s → P (f s a)) : ∀ (l : List α) {s : σ}, P s → P (l.foldl f s)
  | [], _, h => h
  | a :: l, s, h => foldl_keeps keep l (keep s a h)

/-- What one element establishes and every step keeps holds at the end. -/
theorem foldl_establishes (keep : ∀ s a, P s → P (f s a)) {l : List α} {a : α} (ha : a ∈ l)
    (add : ∀ s, P (f s a)) (s : σ) : P (l.foldl f s) := by
  induction l generalizing s with
  | nil => exact absurd ha List.not_mem_nil
  | cons b l ih =>
    rw [List.foldl_cons]
    rcases List.mem_cons.mp ha with rfl | ha
    · exact foldl_keeps keep l (add s)
    · exact ih ha (f s b)

theorem isSome_insert {κ ν : Type} [DecidableEq κ] (m : KeyedMap κ ν) (k a : κ) (x : ν) :
    ((m.insert k x).lookup a).isSome ↔ a = k ∨ (m.lookup a).isSome := by
  rw [KeyedMap.lookup_insert_eq]
  by_cases h : a = k <;> simp [h]

end Adding

variable {α β κ : Type} [DecidableEq κ] (key : α → κ) (val : α → β)

/-- The group of a key, empty when it has none. -/
def groupOf (m : KeyedMap κ (List β)) (k : κ) : List β := (m.lookup k).getD []

/-- Append an element to its group. -/
def add (m : KeyedMap κ (List β)) (a : α) : KeyedMap κ (List β) :=
  m.insert (key a) (groupOf m (key a) ++ [val a])

/-- The groups of a list. -/
def groups (l : List α) : KeyedMap κ (List β) := l.foldl (add key val) ∅

theorem groupOf_add (m : KeyedMap κ (List β)) (a : α) (k : κ) :
    groupOf (add key val m a) k = groupOf m k ++ if key a = k then [val a] else [] := by
  unfold groupOf add
  rw [KeyedMap.lookup_insert_eq]
  by_cases h : k = key a
  · rw [if_pos h, if_pos h.symm, h]
    rfl
  · rw [if_neg h, if_neg (Ne.symm h), List.append_nil]

theorem groupOf_foldl (l : List α) (m : KeyedMap κ (List β)) (k : κ) :
    groupOf (l.foldl (add key val) m) k = groupOf m k ++ (l.filter fun a => key a = k).map val := by
  induction l generalizing m with
  | nil => simp
  | cons a l ih =>
    rw [List.foldl_cons, ih, groupOf_add, List.append_assoc]
    by_cases h : key a = k
    · simp [h]
    · simp [h]

/-- A group is the elements of its key, in order. -/
theorem groupOf_groups (l : List α) (k : κ) :
    groupOf (groups key val l) k = (l.filter fun a => key a = k).map val := by
  unfold groups
  rw [groupOf_foldl]
  rfl

/-- Only the keys of elements have a group. -/
theorem isSome_lookup_groups (l : List α) (k : κ) :
    ((groups key val l).lookup k).isSome ↔ ∃ a ∈ l, key a = k := by
  unfold groups
  have h : ∀ (l : List α) (m : KeyedMap κ (List β)),
      ((l.foldl (add key val) m).lookup k).isSome ↔ (∃ a ∈ l, key a = k) ∨ (m.lookup k).isSome := by
    intro l
    induction l with
    | nil => simp
    | cons a l ih =>
      intro m
      rw [List.foldl_cons, ih]
      unfold add
      rw [isSome_insert, List.exists_mem_cons_iff, eq_comm (a := k), or_left_comm, or_assoc]
  rw [h]
  simp

/-- The group stored under a key. -/
theorem lookup_groups {l : List α} {k : κ} {g : List β} (h : (groups key val l).lookup k = some g) :
    g = (l.filter fun a => key a = k).map val := by
  have hg := groupOf_groups key val l k
  unfold groupOf at hg
  rw [h] at hg
  exact hg

theorem lookup_groups_of_mem {l : List α} {a : α} (ha : a ∈ l) :
    (groups key val l).lookup (key a) = some ((l.filter fun b => key b = key a).map val) := by
  obtain ⟨g, hg⟩ := Option.isSome_iff_exists.mp ((isSome_lookup_groups key val l (key a)).mpr
    ⟨a, ha, rfl⟩)
  rw [hg, ← lookup_groups key val hg]

/-! ## One accumulator a key -/

section Accumulate

variable {ω : Type} (acc : Option ω → α → ω)

/-- Fold each element into the accumulator of its key, none before the first. -/
def accumulate (l : List α) : KeyedMap κ ω :=
  l.foldl (fun m a => m.insert (key a) (acc (m.lookup (key a)) a)) ∅

/-- The accumulator of a key has seen the elements of its key, in order. -/
theorem lookup_accumulate (l : List α) (k : κ) :
    (accumulate key acc l).lookup k
      = (l.filter fun a => key a = k).foldl (fun o a => some (acc o a)) none := by
  unfold accumulate
  induction l using List.reverseRecOn with
  | nil => rfl
  | append_singleton l a ih =>
    rw [List.foldl_concat, KeyedMap.lookup_insert_eq, List.filter_append, List.foldl_append,
      List.filter_singleton]
    by_cases h : k = key a
    · rw [if_pos h, ← h, ih, decide_eq_true rfl]
      rfl
    · rw [if_neg h, ih, decide_eq_false (Ne.symm h)]
      rfl

end Accumulate

end Grouping
