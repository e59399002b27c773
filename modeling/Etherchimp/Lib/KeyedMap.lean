import Mathlib.Data.List.AList
import Mathlib.Data.List.Induction
import Mathlib.Data.List.Perm.Lattice
import Mathlib.Algebra.BigOperators.Group.List.Basic

/-!
# Keyed maps

A finite map from keys to values that can be visited entry by entry. The carrier
is Mathlib's `AList`: a list of pairs with distinct keys. Its order is the order
a range loop visits, so a loop over a map is a fold over `keys` or `entries`,
and a fact that holds for every order is one stated through `lookup`.

What is added here is what programs over such maps do and `AList` has no name
for: reading a lookup after an update in one equation, updating a value in
place, rewriting every value, dropping many keys at once, writing one map over
another, and comparing two maps key by key.
-/

universe u v w

/-- A finite map from `κ` to `ν`. -/
abbrev KeyedMap (κ : Type u) (ν : Type v) := AList (fun _ : κ => ν)

namespace KeyedMap

variable {κ : Type u} {ν : Type v} {ω : Type w} [DecidableEq κ]

theorem lookup_insert_eq (m : KeyedMap κ ν) (k a : κ) (x : ν) :
    (m.insert k x).lookup a = if a = k then some x else m.lookup a := by
  split
  · rename_i h; subst h; exact AList.lookup_insert m
  · rename_i h; exact AList.lookup_insert_ne h

theorem lookup_erase_eq (m : KeyedMap κ ν) (k a : κ) :
    (m.erase k).lookup a = if a = k then none else m.lookup a := by
  split
  · rename_i h; subst h; exact AList.lookup_erase a m
  · rename_i h; exact AList.lookup_erase_ne h

theorem mem_keys_iff (m : KeyedMap κ ν) (k : κ) : k ∈ m.keys ↔ ∃ x, m.lookup k = some x := by
  rw [← AList.mem_keys, ← AList.lookup_isSome, Option.isSome_iff_exists]

theorem mem_entries_iff (m : KeyedMap κ ν) (k : κ) (x : ν) :
    (⟨k, x⟩ : Sigma fun _ : κ => ν) ∈ m.entries ↔ m.lookup k = some x :=
  AList.mem_lookup_iff.symm

/-! ## How many keys -/

theorem length_keys_insert {m : KeyedMap κ ν} {k : κ} (h : m.lookup k = none) (x : ν) :
    (m.insert k x).keys.length = m.keys.length + 1 := by
  have hk : k ∉ m.keys := fun hm => AList.lookup_eq_none.mp h (AList.mem_keys.mpr hm)
  rw [AList.keys_insert, List.erase_of_not_mem hk, List.length_cons]

theorem length_keys_overwrite {m : KeyedMap κ ν} {k : κ} {y : ν} (h : m.lookup k = some y)
    (x : ν) : (m.insert k x).keys.length = m.keys.length := by
  have hk : k ∈ m.keys := (mem_keys_iff m k).mpr ⟨y, h⟩
  have hpos := List.length_pos_of_mem hk
  rw [AList.keys_insert, List.length_cons, List.length_erase_of_mem hk]
  omega

theorem length_keys_erase {m : KeyedMap κ ν} {k : κ} {y : ν} (h : m.lookup k = some y) :
    (m.erase k).keys.length = m.keys.length - 1 := by
  rw [AList.keys_erase, List.length_erase_of_mem ((mem_keys_iff m k).mpr ⟨y, h⟩)]

/-! ## Updating in place -/

/-- Update the value under `k`, when there is one. -/
def adjust (m : KeyedMap κ ν) (k : κ) (f : ν → ν) : KeyedMap κ ν :=
  match m.lookup k with
  | some x => m.insert k (f x)
  | none => m

theorem lookup_adjust (m : KeyedMap κ ν) (k a : κ) (f : ν → ν) :
    (adjust m k f).lookup a = if a = k then (m.lookup a).map f else m.lookup a := by
  unfold adjust
  split
  · rename_i x hx
    rw [lookup_insert_eq]
    split
    · rename_i h; subst h; rw [hx]; rfl
    · rfl
  · rename_i hx
    split
    · rename_i h; subst h; rw [hx]; rfl
    · rfl

/-- Rewrite every value, as a range loop assigning to the entry it visits does. -/
def mapVal (f : ν → ω) (m : KeyedMap κ ν) : KeyedMap κ ω where
  entries := m.entries.map (Sigma.map id fun _ => f)
  nodupKeys := by
    have h : (m.entries.map (Sigma.map id fun _ => f) : List (Sigma fun _ : κ => ω)).keys
        = m.entries.keys := by
      simp [List.keys, List.map_map, Function.comp_def, Sigma.map]
    rw [List.NodupKeys, h]
    exact m.nodupKeys

theorem lookup_mapVal (f : ν → ω) (m : KeyedMap κ ν) (a : κ) :
    (mapVal f m).lookup a = (m.lookup a).map f :=
  List.dlookup_map₂ (γ := fun _ => ν) (δ := fun _ => ω) (f := fun _ => f) a

/-! ## Dropping many keys -/

/-- Delete each listed key. -/
def eraseAll (m : KeyedMap κ ν) (ks : List κ) : KeyedMap κ ν :=
  ks.foldl (fun m k => m.erase k) m

theorem lookup_eraseAll (m : KeyedMap κ ν) (ks : List κ) (a : κ) :
    (eraseAll m ks).lookup a = if a ∈ ks then none else m.lookup a := by
  induction ks generalizing m with
  | nil => simp [eraseAll]
  | cons k ks ih =>
    show (eraseAll (m.erase k) ks).lookup a = _
    rw [ih, lookup_erase_eq]
    by_cases hk : a = k <;> by_cases hks : a ∈ ks <;> simp [hk, hks]

/-- Keep the entries whose key satisfies `p`. -/
def filterKey (p : κ → Bool) (m : KeyedMap κ ν) : KeyedMap κ ν :=
  eraseAll m (m.keys.filter fun k => !p k)

theorem lookup_filterKey (p : κ → Bool) (m : KeyedMap κ ν) (a : κ) :
    (filterKey p m).lookup a = if p a then m.lookup a else none := by
  rw [filterKey, lookup_eraseAll]
  by_cases hp : p a
  · simp [hp]
  · simp only [List.mem_filter, hp, Bool.not_false, and_true]
    split
    · simp
    · rename_i h
      simpa using AList.lookup_eq_none.mpr (fun hm => h (AList.mem_keys.mp hm))

/-! ## Batches -/

/-- The entries under the listed keys. -/
def copyKeys (m : KeyedMap κ ν) (ks : List κ) : KeyedMap κ ν :=
  ks.foldl (fun out k => match m.lookup k with | some x => out.insert k x | none => out) ∅

theorem lookup_copyKeys (m : KeyedMap κ ν) (ks : List κ) (a : κ) :
    (copyKeys m ks).lookup a = if a ∈ ks then m.lookup a else none := by
  induction ks using List.reverseRecOn with
  | nil => rfl
  | append_singleton ks k ih =>
    unfold copyKeys at ih ⊢
    rw [List.foldl_append, List.foldl_cons, List.foldl_nil]
    by_cases ha : a = k
    · subst ha
      cases hk : m.lookup a with
      | none => rw [ih, hk]; simp
      | some x => rw [AList.lookup_insert]; simp
    · have hmem : a ∈ ks ++ [k] ↔ a ∈ ks := by simp [ha]
      cases hk : m.lookup k with
      | none => rw [ih]; exact if_congr hmem.symm rfl rfl
      | some x => rw [AList.lookup_insert_ne ha, ih]; exact if_congr hmem.symm rfl rfl

/-- Write every entry of a batch; `f` is given the value already there. -/
def upsertAll (f : Option ω → ν → ω) (m : KeyedMap κ ω) (batch : KeyedMap κ ν) : KeyedMap κ ω :=
  batch.entries.foldl (fun m e => m.insert e.1 (f (m.lookup e.1) e.2)) m

theorem lookup_upsertAll (f : Option ω → ν → ω) (m : KeyedMap κ ω) (batch : KeyedMap κ ν)
    (a : κ) : (upsertAll f m batch).lookup a
      = match batch.lookup a with
        | some x => some (f (m.lookup a) x)
        | none => m.lookup a := by
  obtain ⟨entries, hnodup⟩ := batch
  show (entries.foldl _ m).lookup a = match entries.dlookup a with
    | some x => some (f (m.lookup a) x)
    | none => m.lookup a
  induction entries generalizing m with
  | nil => rfl
  | cons e entries ih =>
    obtain ⟨hk, hrest⟩ := List.nodupKeys_cons.mp hnodup
    rw [List.foldl_cons, ih (m.insert e.1 (f (m.lookup e.1) e.2)) hrest, lookup_insert_eq]
    by_cases ha : a = e.1
    · subst ha
      rw [List.dlookup_eq_none.mpr hk, List.dlookup_cons_eq entries e.1 e.2, if_pos rfl]
    · rw [List.dlookup_cons_ne entries e ha, if_neg ha]

/-! ## Key by key -/

/-- Both maps hold the same keys, and the two values under each are related. -/
def Related (R : κ → ν → ω → Prop) (m : KeyedMap κ ν) (m' : KeyedMap κ ω) : Prop :=
  ∀ k, Option.Rel (R k) (m.lookup k) (m'.lookup k)

section Related

variable {R : κ → ν → ω → Prop} {S : κ → ν → ν → Prop} {m : KeyedMap κ ν} {m' : KeyedMap κ ω}
  {k : κ}

theorem Related.lookup (h : Related R m m') {y : ω} (hl : m'.lookup k = some y) :
    ∃ x, m.lookup k = some x ∧ R k x y := by
  have hr := h k
  rw [hl] at hr
  cases hm : m.lookup k with
  | none => rw [hm] at hr; cases hr
  | some x => rw [hm] at hr; cases hr with | some r => exact ⟨x, rfl, r⟩

theorem Related.lookup' (h : Related R m m') {x : ν} (hl : m.lookup k = some x) :
    ∃ y, m'.lookup k = some y ∧ R k x y := by
  have hr := h k
  rw [hl] at hr
  cases hm : m'.lookup k with
  | none => rw [hm] at hr; cases hr
  | some y => rw [hm] at hr; cases hr with | some r => exact ⟨y, rfl, r⟩

theorem Related.lookup_none (h : Related R m m') : m'.lookup k = none ↔ m.lookup k = none := by
  have hr := h k
  cases hm : m.lookup k <;> cases hm' : m'.lookup k <;> rw [hm, hm'] at hr <;> cases hr
  all_goals simp

theorem Related.mono {R' : κ → ν → ω → Prop} (hR : ∀ k x y, R k x y → R' k x y)
    (h : Related R m m') : Related R' m m' := by
  intro k
  have hr := h k
  cases hm : m.lookup k <;> cases hm' : m'.lookup k <;> rw [hm, hm'] at hr <;> cases hr
  · exact Option.Rel.none
  · rename_i hr; exact Option.Rel.some (hR k _ _ hr)

theorem related_refl (hS : ∀ k x, S k x x) (m : KeyedMap κ ν) : Related S m m := by
  intro k
  cases m.lookup k with
  | none => exact Option.Rel.none
  | some x => exact Option.Rel.some (hS k x)

theorem Related.trans (hS : ∀ k x y z, S k x y → S k y z → S k x z) {a b c : KeyedMap κ ν}
    (h : Related S a b) (h' : Related S b c) : Related S a c := by
  intro k
  have h1 := h k
  have h2 := h' k
  revert h1 h2
  generalize a.lookup k = x, b.lookup k = y, c.lookup k = z
  intro h1 h2
  cases h1 with
  | none => exact h2
  | some r1 => cases h2 with | some r2 => exact Option.Rel.some (hS k _ _ _ r1 r2)

theorem Related.symm {R' : κ → ω → ν → Prop} (hR : ∀ k x y, R k x y → R' k y x)
    (h : Related R m m') : Related R' m' m := by
  intro k
  have hr := h k
  revert hr
  generalize m.lookup k = x, m'.lookup k = y
  intro hr
  cases hr with
  | none => exact Option.Rel.none
  | some r => exact Option.Rel.some (hR k _ _ r)

/-- Storing related values under one key. -/
theorem Related.insert (h : Related R m m') {x : ν} {y : ω} (hxy : R k x y) :
    Related R (m.insert k x) (m'.insert k y) := by
  intro a
  rw [lookup_insert_eq, lookup_insert_eq]
  by_cases ha : a = k
  · subst ha
    rw [if_pos rfl, if_pos rfl]
    exact Option.Rel.some hxy
  · rw [if_neg ha, if_neg ha]
    exact h a

/-- Updating one value in place. -/
theorem related_adjust (hS : ∀ k x, S k x x) (m : KeyedMap κ ν) {f : ν → ν}
    (hf : ∀ x, S k x (f x)) : Related S m (adjust m k f) := by
  intro a
  rw [lookup_adjust]
  by_cases ha : a = k
  · subst ha
    rw [if_pos rfl]
    cases m.lookup a with
    | none => exact Option.Rel.none
    | some x => exact Option.Rel.some (hf x)
  · rw [if_neg ha]
    exact related_refl hS m a

/-- Overwriting the value under a key that has one. -/
theorem related_insert (hS : ∀ k x, S k x x) {x y : ν} (hl : m.lookup k = some x)
    (hxy : S k x y) : Related S m (m.insert k y) := by
  intro a
  rw [lookup_insert_eq]
  by_cases ha : a = k
  · subst ha; rw [if_pos rfl, hl]; exact Option.Rel.some hxy
  · rw [if_neg ha]
    exact related_refl hS m a

end Related

end KeyedMap
