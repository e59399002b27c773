import Mathlib.Data.List.Nodup

/-!
# Linked lists with elements

A list whose elements are objects: whoever pushes a value gets back a pointer to
the element holding it, and moves or removes the element through that pointer.
A pointer is a number that is never handed out twice, so the pointers in a list
are distinct, and a pointer from before `renew` names nothing afterwards.
-/

universe u

/-- A list of elements, front first, and the pointer the next element gets. -/
structure LinkedList (α : Type u) where
  elems : List (Nat × α)
  next : Nat
  nodup : (elems.map Prod.fst).Nodup
  below : ∀ e ∈ elems, e.1 < next

namespace LinkedList

variable {α : Type u}

/-- The values, front first. -/
def values (l : LinkedList α) : List α := l.elems.map Prod.snd

/-- A list with no elements. -/
def empty : LinkedList α where
  elems := []
  next := 0
  nodup := List.nodup_nil
  below := fun _ h => absurd h List.not_mem_nil

/-- A new list in the place of this one; the pointers given out stay used up. -/
def renew (l : LinkedList α) : LinkedList α where
  elems := []
  next := l.next
  nodup := List.nodup_nil
  below := fun _ h => absurd h List.not_mem_nil

/-- Append a value. Its element is `l.next`. -/
def pushBack (l : LinkedList α) (x : α) : LinkedList α where
  elems := l.elems ++ [(l.next, x)]
  next := l.next + 1
  nodup := by
    rw [List.map_append, List.map_singleton, ← List.concat_eq_append, List.nodup_concat]
    refine ⟨fun h => ?_, l.nodup⟩
    obtain ⟨e, he, hp⟩ := List.mem_map.mp h
    have := l.below e he
    omega
  below := by
    intro e he
    rcases List.mem_append.mp he with he | he
    · have := l.below e he
      omega
    · rw [List.mem_singleton.mp he]
      exact Nat.lt_succ_self _

/-- The elements other than `p`. -/
def others (l : LinkedList α) (p : Nat) : List (Nat × α) := l.elems.filter fun e => e.1 ≠ p

theorem mem_others {l : LinkedList α} {p : Nat} {e : Nat × α} :
    e ∈ l.others p ↔ e ∈ l.elems ∧ e.1 ≠ p := by
  simp [others]

private theorem nodup_others (l : LinkedList α) (p : Nat) : ((l.others p).map Prod.fst).Nodup :=
  l.nodup.sublist (List.Sublist.map _ List.filter_sublist)

/-- Unlink the element `p`, when it is one of this list. -/
def remove (l : LinkedList α) (p : Nat) : LinkedList α where
  elems := l.others p
  next := l.next
  nodup := nodup_others l p
  below := fun e he => l.below e (mem_others.mp he).1

/-- Move the element `p` to the back, when it is one of this list. -/
def moveToBack (l : LinkedList α) (p : Nat) : LinkedList α :=
  match h : l.elems.find? fun e => e.1 = p with
  | none => l
  | some e =>
    { elems := l.others p ++ [e]
      next := l.next
      nodup := by
        have hp : e.1 = p := by simpa using List.find?_some h
        rw [List.map_append, List.map_singleton, ← List.concat_eq_append, List.nodup_concat]
        refine ⟨fun hm => ?_, nodup_others l p⟩
        obtain ⟨e', he', heq⟩ := List.mem_map.mp hm
        exact (mem_others.mp he').2 (heq.trans hp)
      below := by
        intro e' he'
        rcases List.mem_append.mp he' with he' | he'
        · exact l.below e' (mem_others.mp he').1
        · rw [List.mem_singleton.mp he']
          exact l.below e (List.mem_of_find?_eq_some h) }

/-- The first element. -/
def front (l : LinkedList α) : Option (Nat × α) := l.elems.head?

/-! ## Pointers name one element -/

/-- Two elements under one pointer are the same element. -/
theorem eq_of_ptr (l : LinkedList α) {p : Nat} {x y : α} (hx : (p, x) ∈ l.elems)
    (hy : (p, y) ∈ l.elems) : x = y := by
  have := List.inj_on_of_nodup_map l.nodup hx hy rfl
  exact (Prod.mk.inj this).2

theorem elems_moveToBack (l : LinkedList α) {p : Nat} {x : α} (h : (p, x) ∈ l.elems) :
    (l.moveToBack p).elems = l.others p ++ [(p, x)] := by
  unfold moveToBack
  split
  · rename_i hnone
    have hne := List.find?_eq_none.mp hnone _ h
    exact absurd (decide_eq_true rfl) hne
  · rename_i e he
    obtain ⟨q, y⟩ := e
    have hp : q = p := by simpa using List.find?_some he
    have hm : (p, y) ∈ l.elems := hp ▸ List.mem_of_find?_eq_some he
    show l.others p ++ [(q, y)] = l.others p ++ [(p, x)]
    rw [hp, l.eq_of_ptr hm h]

/-- Unlinking the front leaves the rest. -/
theorem elems_remove_front (l : LinkedList α) {e : Nat × α} {rest : List (Nat × α)}
    (h : l.elems = e :: rest) : (l.remove e.1).elems = rest := by
  have hnd := l.nodup
  rw [h, List.map_cons, List.nodup_cons] at hnd
  show l.elems.filter _ = rest
  rw [h, List.filter_cons_of_neg (by simp), List.filter_eq_self]
  intro e' he'
  have : e'.1 ≠ e.1 := fun heq => hnd.1 (heq ▸ List.mem_map_of_mem he')
  simpa using this

end LinkedList
