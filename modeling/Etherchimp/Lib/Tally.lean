import Mathlib.Algebra.BigOperators.Group.List.Basic
import Mathlib.Algebra.Group.Prod
import Mathlib.Algebra.Ring.Nat

/-!
# Totals over a history

A counter that a program keeps should be the total, over what happened so far, of
the weight of the events it is about. `total w p l` is that sum. The lemmas say
how it moves when an event is added, when two classes of events become one, and
when the class is described differently.

Weights are in any commutative monoid, so a pair of counters is one total.
-/

universe u v

namespace Tally

variable {α : Type u} {M : Type v} [AddCommMonoid M]

/-- The total weight of the events in the class `p`. -/
def total (w : α → M) (p : α → Bool) (l : List α) : M := ((l.filter p).map w).sum

variable {w : α → M} {p q : α → Bool} {l : List α}

@[simp] theorem total_nil : total w p [] = 0 := rfl

theorem total_append (l l' : List α) : total w p (l ++ l') = total w p l + total w p l' := by
  simp [total]

theorem total_concat (l : List α) (x : α) :
    total w p (l ++ [x]) = total w p l + if p x then w x else 0 := by
  rw [total_append]
  cases hp : p x <;> simp [total, hp]

/-- Only the class matters, not how it is described. -/
theorem total_congr (h : ∀ x ∈ l, p x = q x) : total w p l = total w q l := by
  rw [total, total, List.filter_congr h]

theorem total_eq_zero (h : ∀ x ∈ l, p x = false) : total w p l = 0 := by
  have : l.filter p = [] := by
    rw [List.filter_eq_nil_iff]
    intro x hx
    rw [h x hx]
    exact Bool.false_ne_true
  simp [total, this]

/-- Two disjoint classes become one. -/
theorem total_or (h : ∀ x ∈ l, p x = true → q x = false) :
    total w (fun x => p x || q x) l = total w p l + total w q l := by
  induction l with
  | nil => simp
  | cons x l ih =>
    have hx := h x (List.mem_cons_self ..)
    have hl := ih fun y hy => h y (List.mem_cons_of_mem _ hy)
    unfold total at hl ⊢
    cases hp : p x <;> cases hq : q x
    · simpa [hp, hq] using hl
    · simp only [List.filter_cons, hp, hq, Bool.or_true, if_true, List.map_cons, List.sum_cons,
        hl, Bool.false_eq_true, if_false]
      rw [add_left_comm]
    · simp only [List.filter_cons, hp, hq, Bool.or_false, if_true, List.map_cons, List.sum_cons,
        hl, Bool.false_eq_true, if_false]
      rw [add_assoc]
    · rw [hx hp] at hq; cases hq

/-- The number of events in a class. -/
theorem total_one (p : α → Bool) (l : List α) :
    total (fun _ => (1 : Nat)) p l = (l.filter p).length := by
  rw [total, List.map_const', List.sum_replicate, Nat.nsmul_eq_mul, Nat.mul_one]

/-- A pair of counters is one total. -/
theorem total_pair {N : Type v} [AddCommMonoid N] (f : α → M) (g : α → N) (p : α → Bool)
    (l : List α) : total (fun x => (f x, g x)) p l = (total f p l, total g p l) := by
  induction l with
  | nil => rfl
  | cons x l ih =>
    unfold total at ih ⊢
    cases hp : p x <;> simp [hp, ih]

/-- A history written another way. -/
theorem total_map {β : Type*} (f : β → α) (l : List β) :
    total w p (l.map f) = total (fun x => w (f x)) (fun x => p (f x)) l := by
  unfold total
  rw [List.filter_map, List.map_map]
  rfl

/-- The totals of the classes a key makes are the total of all. -/
theorem total_classes {κ : Type*} [DecidableEq κ] (key : α → κ) {ks : List κ} (hnd : ks.Nodup)
    (hall : ∀ x ∈ l, key x ∈ ks) :
    (ks.map fun k => total w (fun x => key x = k) l).sum = (l.map w).sum := by
  induction l with
  | nil => simp
  | cons x l ih =>
    have hsplit : (fun k => total w (fun x => key x = k) (x :: l))
        = fun k => (if key x = k then w x else 0) + total w (fun x => key x = k) l := by
      funext k
      by_cases hk : key x = k <;> simp [total, hk]
    have hone : (ks.map fun k => if key x = k then w x else 0).sum = w x := by
      rw [List.sum_map_eq_nsmul_single (key x) _ fun k hk _ => if_neg (Ne.symm hk), if_pos rfl,
        hnd.count, if_pos (hall x (List.mem_cons_self ..)), one_nsmul]
    rw [hsplit, List.sum_map_add, hone, ih fun y hy => hall y (List.mem_cons_of_mem _ hy),
      List.map_cons, List.sum_cons]

end Tally
