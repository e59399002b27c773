import Etherchimp.Lib.KeyedMap
import Mathlib.Data.List.Sort

/-!
# The largest keys of a map

A cache of bounded size that gives up its smallest keys keeps the largest it was ever
given, whatever the order they came in: a key it was given is there, or as many larger
ones are as the cache has room for.
-/

universe u v

namespace Newest

variable {κ : Type u} {ν : Type v} [LinearOrder κ]

/-- The keys in increasing order. -/
def ascending (m : KeyedMap κ ν) : List κ := m.keys.mergeSort fun a b => decide (a ≤ b)

/-- How many keys are larger. -/
def newer (m : KeyedMap κ ν) (k : κ) : Nat := (m.keys.filter fun a => decide (k < a)).length

/-- The key is there, or the cache is full of larger ones. -/
def Covers (cap : Nat) (m : KeyedMap κ ν) (k : κ) : Prop := k ∈ m.keys ∨ cap ≤ newer m k

variable {cap : Nat} {m : KeyedMap κ ν} {k : κ}

theorem ascending_perm (m : KeyedMap κ ν) : (ascending m).Perm m.keys := List.mergeSort_perm ..

theorem length_ascending (m : KeyedMap κ ν) : (ascending m).length = m.keys.length :=
  (ascending_perm m).length_eq

theorem ascending_nodup (m : KeyedMap κ ν) : (ascending m).Nodup :=
  (ascending_perm m).nodup_iff.mpr (AList.keys_nodup m)

theorem ascending_sorted (m : KeyedMap κ ν) : (ascending m).Pairwise fun a b => a < b := by
  have hle : (ascending m).Pairwise fun a b => decide (a ≤ b) = true :=
    List.pairwise_mergeSort (fun a b c hab hbc => decide_eq_true
      ((of_decide_eq_true hab).trans (of_decide_eq_true hbc)))
      (fun a b => by
        rw [Bool.or_eq_true, decide_eq_true_eq, decide_eq_true_eq]
        exact le_total a b) m.keys
  exact (hle.and (ascending_nodup m)).imp fun ⟨hab, hne⟩ => lt_of_le_of_ne (of_decide_eq_true hab) hne

theorem newer_perm {l : List κ} (h : m.keys.Perm l) (k : κ) :
    newer m k = (l.filter fun a => decide (k < a)).length :=
  (h.filter _).length_eq

variable [DecidableEq κ]

/-- Delete the smallest keys until `cap` are left. -/
def evict (cap : Nat) (m : KeyedMap κ ν) : KeyedMap κ ν :=
  KeyedMap.eraseAll m ((ascending m).take (m.keys.length - cap))

/-- What is left are the keys behind the evicted ones. -/
theorem keys_evict (cap : Nat) (m : KeyedMap κ ν) :
    (evict cap m).keys.Perm ((ascending m).drop (m.keys.length - cap)) := by
  have hnodup := ascending_nodup m
  rw [List.perm_ext_iff_of_nodup (AList.keys_nodup _) (hnodup.sublist (List.drop_sublist ..))]
  intro a
  rw [KeyedMap.mem_keys_iff]
  unfold evict
  rw [KeyedMap.lookup_eraseAll]
  have hmem : a ∈ ascending m ↔ ∃ x, m.lookup a = some x :=
    (ascending_perm m).mem_iff.trans (KeyedMap.mem_keys_iff m a)
  rw [← List.take_append_drop (m.keys.length - cap) (ascending m)] at hnodup hmem
  rw [List.mem_append] at hmem
  constructor
  · rintro ⟨x, hx⟩
    split at hx
    · cases hx
    · rename_i hnot
      exact (hmem.mpr ⟨x, hx⟩).resolve_left hnot
  · intro hdrop
    rw [if_neg fun htake => (List.nodup_append.mp hnodup).2.2 a htake a hdrop rfl]
    exact hmem.mp (.inr hdrop)

theorem lookup_evict {x : ν} (h : (evict cap m).lookup k = some x) : m.lookup k = some x := by
  unfold evict at h
  rw [KeyedMap.lookup_eraseAll] at h
  split at h
  · cases h
  · exact h

/-- When something larger goes, everything left is larger. -/
theorem cap_le_newer_evict {a : κ} (ha : a ∈ (ascending m).take (m.keys.length - cap))
    (hka : k ≤ a) : cap ≤ newer (evict cap m) k := by
  have hsorted := ascending_sorted m
  rw [← List.take_append_drop (m.keys.length - cap) (ascending m), List.pairwise_append] at hsorted
  rw [newer_perm (keys_evict cap m), List.filter_eq_self.mpr fun b hb =>
    decide_eq_true (hka.trans_lt (hsorted.2.2 a ha b hb)), List.length_drop, length_ascending]
  have hpos := List.length_pos_of_mem ha
  rw [List.length_take] at hpos
  omega

/-- **Eviction forgets nothing larger than what it keeps.** -/
theorem Covers.evict (h : Covers cap m k) : Covers cap (evict cap m) k := by
  have hsplit := List.take_append_drop (m.keys.length - cap) (ascending m)
  rcases h with hk | hnewer
  · rw [← (ascending_perm m).mem_iff, ← hsplit, List.mem_append] at hk
    rcases hk with hk | hk
    · exact .inr (cap_le_newer_evict hk le_rfl)
    · exact .inl ((keys_evict cap m).mem_iff.mpr hk)
  · refine .inr ?_
    by_cases hsome : ∃ a ∈ (ascending m).take (m.keys.length - cap), k < a
    · obtain ⟨a, ha, hka⟩ := hsome
      exact cap_le_newer_evict ha hka.le
    · -- nothing larger goes, so as many stay
      have hnone : ((ascending m).take (m.keys.length - cap)).filter (fun a => decide (k < a)) = [] :=
        List.filter_eq_nil_iff.mpr fun a ha hd => hsome ⟨a, ha, of_decide_eq_true hd⟩
      have hcount : newer m k = newer (Newest.evict cap m) k := by
        rw [newer_perm (ascending_perm m).symm, newer_perm (keys_evict cap m)]
        conv_lhs => rw [← hsplit, List.filter_append, hnone, List.nil_append]
      exact hcount ▸ hnewer

theorem newer_insert_le (m : KeyedMap κ ν) (a : κ) (x : ν) (k : κ) :
    newer m k ≤ newer (m.insert a x) k := by
  by_cases ha : a ∈ m.keys
  · refine (newer_perm (m := m) (l := (m.insert a x).keys) ?_ k).le
    rw [AList.keys_insert]
    exact List.perm_cons_erase ha
  · unfold newer
    rw [AList.keys_insert, List.erase_of_not_mem ha, List.filter_cons]
    split
    · exact Nat.le_succ _
    · exact le_rfl

theorem Covers.insert (h : Covers cap m k) (a : κ) (x : ν) : Covers cap (m.insert a x) k := by
  rcases h with hk | hnewer
  · rw [← AList.mem_keys] at hk
    exact .inl (AList.mem_keys.mp ((AList.mem_insert m).mpr (.inr hk)))
  · exact .inr (hnewer.trans (newer_insert_le m a x k))

theorem covers_insert_self (cap : Nat) (m : KeyedMap κ ν) (k : κ) (x : ν) :
    Covers cap (m.insert k x) k :=
  .inl (AList.mem_keys.mp ((AList.mem_insert m).mpr (.inl rfl)))

end Newest
