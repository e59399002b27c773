import Etherchimp.Lib.Panic

/-!
# Loops over checked reads

A loop of checked statements that all end is the loop over their results. Stated for
the loops that build a list, that test every element, and that stop at the first they
look for.
-/

universe u v

namespace Panic

variable {α : Type v} {β : Type u} {l : List α}

theorem mapM_ok {f : α → Except Panic β} {g : α → β} (h : ∀ a ∈ l, f a = .ok (g a)) :
    l.mapM f = .ok (l.map g) := by
  induction l with
  | nil => rfl
  | cons a l ih =>
    rw [List.mapM_cons, h a (List.mem_cons_self ..),
      ih fun b hb => h b (List.mem_cons_of_mem _ hb)]
    rfl

theorem allM_ok {f : α → Except Panic Bool} {p : α → Bool} (h : ∀ a ∈ l, f a = .ok (p a)) :
    l.allM f = .ok (l.all p) := by
  induction l with
  | nil => rfl
  | cons a l ih =>
    rw [List.allM_cons, h a (List.mem_cons_self ..),
      ih fun b hb => h b (List.mem_cons_of_mem _ hb), List.all_cons]
    cases p a <;> rfl

theorem findSomeM?_ok {f : α → Except Panic (Option β)} {g : α → Option β}
    (h : ∀ a ∈ l, f a = .ok (g a)) : l.findSomeM? f = .ok (l.findSome? g) := by
  induction l with
  | nil => rfl
  | cons a l ih =>
    rw [List.findSomeM?_cons, h a (List.mem_cons_self ..),
      ih fun b hb => h b (List.mem_cons_of_mem _ hb), List.findSome?_cons]
    cases g a <;> rfl

/-- A read in range. -/
theorem index_ok {xs : List α} {i : Nat} {x : α} (h : xs[i]? = some x) : index xs i = .ok x := by
  unfold index
  rw [h]

theorem slice_ok {xs : List α} {n : Nat} (h : n ≤ xs.length) : slice xs n = .ok (xs.take n) :=
  if_pos h

end Panic
