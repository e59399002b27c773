import Mathlib.Data.List.DropRight

/-!
# Streaks and windows

Of a history, latest element first, the streak is for how many elements in a row each
was like the one before it. A streak of `k` says that the `k + 1` latest elements are
alike, and so that a window of that size shows one value of whatever alike elements
share.

Histories that grow at the end are read through `reverse`; their window is `rtake`.
-/

universe u v

namespace Streak

variable {α : Type u} {β : Type v} (like : α → α → Prop) [DecidableRel like]

/-- How many latest elements in a row are like the one before them. -/
def streak : List α → Nat
  | a :: b :: l => if like a b then streak (b :: l) + 1 else 0
  | _ => 0

variable {like} {a b : α} {l : List α} {k : Nat} {f : α → β}

theorem streak_cons_of_like (h : like a b) :
    streak like (a :: b :: l) = streak like (b :: l) + 1 := if_pos h

theorem streak_cons_of_not (h : ¬ like a b) : streak like (a :: b :: l) = 0 := if_neg h

/-- Elements of a streak share what alike elements share. -/
theorem eq_of_streak (hf : ∀ a b, like a b → f a = f b) (h : k ≤ streak like (a :: l)) :
    ∀ x ∈ (a :: l).take (k + 1), f x = f a := by
  induction l generalizing a k with
  | nil =>
    intro x hx
    rw [List.take_succ_cons, List.take_nil, List.mem_singleton] at hx
    rw [hx]
  | cons b l ih =>
    intro x hx
    rw [List.take_succ_cons, List.mem_cons] at hx
    rcases hx with rfl | hx
    · rfl
    · cases k with
      | zero => cases hx
      | succ k =>
        by_cases hab : like a b
        · rw [streak_cons_of_like hab] at h
          rw [ih (by omega) x hx, hf a b hab]
        · rw [streak_cons_of_not hab] at h
          omega

/-- In a window a streak fills, what alike elements share is one value. -/
theorem window_of_streak (hf : ∀ a b, like a b → f a = f b) (done : List α)
    (h : k ≤ streak like (a :: done.reverse)) :
    ∀ y ∈ ((done ++ [a]).map f).rtake (k + 1), y = f a := by
  intro y hy
  rw [List.rtake_eq_reverse_take_reverse, List.mem_reverse, ← List.map_reverse,
    List.reverse_append, List.reverse_singleton, List.singleton_append, ← List.map_take] at hy
  obtain ⟨x, hx, rfl⟩ := List.mem_map.mp hy
  exact eq_of_streak hf h x hx

/-- A window slides. -/
theorem rtake_slide (l : List α) (a : α) (k : Nat) : (l.rtake k ++ [a]).rtake k = (l ++ [a]).rtake k := by
  cases k with
  | zero => rw [List.rtake_zero, List.rtake_zero]
  | succ k =>
    rw [List.rtake_concat_succ, List.rtake_concat_succ]
    congr 1
    rw [List.rtake_eq_reverse_take_reverse, List.rtake_eq_reverse_take_reverse,
      List.rtake_eq_reverse_take_reverse, List.reverse_reverse, List.take_take,
      Nat.min_eq_left (Nat.le_succ k)]

/-- A smaller window shows the end of a larger one. -/
theorem mem_rtake_of_le {j : Nat} (h : j ≤ k) {x : α} (hx : x ∈ l.rtake j) : x ∈ l.rtake k := by
  rw [List.rtake_eq_reverse_take_reverse, List.mem_reverse] at hx ⊢
  exact (List.take_subset_take_left _ h) hx

end Streak
