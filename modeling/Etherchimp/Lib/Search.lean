/-!
# Binary search

The search of a sorted sequence by a predicate that is false on a front part and
true on the rest. `search n f` halves the interval `[0, n)` as long as it is not
empty; it finds where the front part ends, and cutting a list there keeps
exactly the elements the predicate is false on.
-/

universe u

namespace Search

/-- Halve `[i, j)`, at most `fuel` times. -/
def go (f : Nat → Bool) : Nat → Nat → Nat → Nat
  | 0, i, _ => i
  | fuel + 1, i, j =>
      if i < j then
        let h := (i + j) / 2
        if f h then go f fuel i h else go f fuel (h + 1) j
      else i

/-- The first index in `[0, n)` at which `f` is true, or `n`. -/
def search (n : Nat) (f : Nat → Bool) : Nat := go f n 0 n

theorem go_eq {f : Nat → Bool} {n k : Nat} (hf : ∀ i, i < n → f i = decide (k ≤ i)) :
    ∀ {fuel i j : Nat}, i ≤ k → k ≤ j → j ≤ n → j ≤ i + fuel → go f fuel i j = k := by
  intro fuel
  induction fuel with
  | zero =>
    intro i j hi hj hn hfuel
    rw [go]
    omega
  | succ fuel ih =>
    intro i j hi hj hn hfuel
    rw [go]
    by_cases hij : i < j
    · rw [if_pos hij]
      dsimp only
      rw [hf ((i + j) / 2) (by omega)]
      by_cases hk : k ≤ (i + j) / 2
      · rw [if_pos (decide_eq_true hk)]
        exact ih hi hk (by omega) (by omega)
      · rw [if_neg (by rw [decide_eq_true_iff]; exact hk)]
        exact ih (by omega) hj hn (by omega)
    · rw [if_neg hij]
      omega

/-- **The search ends where the predicate turns true.** -/
theorem search_eq {f : Nat → Bool} {n k : Nat} (hk : k ≤ n)
    (hf : ∀ i, i < n → f i = decide (k ≤ i)) : search n f = k :=
  go_eq hf (Nat.zero_le k) hk (Nat.le_refl n) (by omega)

variable {α : Type u} {p : α → Bool} {l : List α}

/-- When `p` never comes back, what satisfies it stands in front of what does not. -/
theorem filter_append_filter (h : l.Pairwise fun a b => p b = true → p a = true) :
    l.filter p ++ l.filter (fun x => !p x) = l := by
  induction l with
  | nil => rfl
  | cons x l ih =>
    rw [List.pairwise_cons] at h
    cases hp : p x with
    | true => simp [hp, ih h.2]
    | false =>
      have hl : ∀ y ∈ l, p y = false := fun y hy => by
        cases hy' : p y with
        | false => rfl
        | true => exact absurd (h.1 y hy hy') (by simp [hp])
      have hnil : l.filter p = [] := List.filter_eq_nil_iff.mpr fun y hy => by simp [hl y hy]
      have hall : l.filter (fun x => !p x) = l :=
        List.filter_eq_self.mpr fun y hy => by simp [hl y hy]
      simp [hp, hnil, hall]

/-- The elements that satisfy a predicate that never comes back are a prefix. -/
theorem filter_prefix (h : l.Pairwise fun a b => p b = true → p a = true) : l.filter p <+: l :=
  ⟨_, filter_append_filter h⟩

/-- **Cutting a list at the search keeps what the predicate is false on.** -/
theorem take_search (h : l.Pairwise fun a b => p b = true → p a = true) :
    l.take (search l.length fun i => (l[i]?).any fun x => !p x) = l.filter p := by
  have hsplit := filter_append_filter h
  generalize hfront : l.filter p = front at hsplit
  generalize hback : l.filter (fun x => !p x) = back at hsplit
  have hlen : front.length ≤ l.length := by
    rw [← hsplit, List.length_append]
    omega
  have hsearch : search l.length (fun i => (l[i]?).any fun x => !p x) = front.length := by
    refine search_eq hlen fun i hi => ?_
    rw [← hsplit, List.getElem?_append]
    by_cases hif : i < front.length
    · have hx : p front[i] = true := by
        have hmem : front[i] ∈ l.filter p := hfront ▸ List.getElem_mem hif
        exact (List.mem_filter.mp hmem).2
      rw [if_pos hif, List.getElem?_eq_getElem hif, Option.any_some, hx,
        decide_eq_false (by omega)]
      rfl
    · have hib : i - front.length < back.length := by
        rw [← hsplit, List.length_append] at hi
        omega
      have hx : (!p back[i - front.length]) = true := by
        have hmem : back[i - front.length] ∈ l.filter fun x => !p x := hback ▸ List.getElem_mem hib
        exact (List.mem_filter.mp hmem).2
      rw [if_neg hif, List.getElem?_eq_getElem hib, Option.any_some, hx,
        decide_eq_true (by omega)]
  rw [hsearch]
  have htake : (front ++ back).take front.length = front := List.take_left
  rw [hsplit] at htake
  exact htake

/-- A front part that holds exactly what satisfies `p` leaves nothing of it behind. -/
theorem pairwise_of_take_eq_filter {n : Nat} (h : l.take n = l.filter p) :
    l.Pairwise fun a b => p b = true → p a = true := by
  have hfront : ∀ x ∈ l.take n, p x = true := fun x hx => (List.mem_filter.mp (h ▸ hx)).2
  have hsplit : (l.take n).filter p ++ (l.drop n).filter p = l.take n := by
    rw [← List.filter_append, List.take_append_drop, h]
  rw [List.filter_eq_self.mpr hfront] at hsplit
  have hback : ∀ x ∈ l.drop n, ¬ p x = true :=
    List.filter_eq_nil_iff.mp (List.append_right_eq_self.mp hsplit)
  rw [← List.take_append_drop n l, List.pairwise_append]
  refine ⟨?_, ?_, fun a ha b _ _ => hfront a ha⟩
  · exact List.pairwise_of_forall_mem_list fun a ha b _ _ => hfront a ha
  · exact List.pairwise_of_forall_mem_list fun a _ b hb hpb => absurd hpb (hback b hb)

/-- **The search cuts exactly** what it looks for when that is a front part, and only then. -/
theorem take_search_iff :
    l.take (search l.length fun i => (l[i]?).any fun x => !p x) = l.filter p
      ↔ l.Pairwise fun a b => p b = true → p a = true :=
  ⟨pairwise_of_take_eq_filter, take_search⟩

end Search
