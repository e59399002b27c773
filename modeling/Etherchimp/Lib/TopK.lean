import Mathlib.Data.List.Induction
import Mathlib.Data.List.Sort

/-!
# The first few of a stable sort

Elements come one by one. Each goes behind those of at least its key into a list kept
in falling order, and the list is cut to `k` after every step. What is kept after the
last one is the first `k` of the whole list, stably sorted.

The kept list is the sorted list of all elements so far, cut: an element that lands at
or behind the cut changes nothing before it, and one that lands before the cut pushes
out exactly the last.
-/

namespace TopK

variable {α β : Type} [LinearOrder β] (key : α → β)

/-- How many elements an arriving one goes behind. -/
def rank (top : List α) (a : α) : Nat := (top.takeWhile fun b => key a ≤ key b).length

/-- Put an element behind those of at least its key. -/
def insertBack (top : List α) (a : α) : List α :=
  top.take (rank key top a) ++ a :: top.drop (rank key top a)

/-- One arrival; an element ranked `k` or later is not kept. -/
def push (k : Nat) (top : List α) (a : α) : List α :=
  if rank key top a = k then top else (insertBack key top a).take k

/-- The stable sort by falling keys. -/
def sorted (l : List α) : List α := l.mergeSort fun a b => key b ≤ key a

variable {key} {k : Nat} {a b : α} {s : List α}

/-! ## Inserting -/

theorem insertBack_nil : insertBack key [] a = [a] := rfl

theorem insertBack_cons_of_le (h : key a ≤ key b) :
    insertBack key (b :: s) a = b :: insertBack key s a := by
  unfold insertBack rank
  rw [List.takeWhile_cons_of_pos (by simpa using h)]
  simp

theorem insertBack_cons_of_lt (h : key b < key a) : insertBack key (b :: s) a = a :: b :: s := by
  unfold insertBack rank
  rw [List.takeWhile_cons_of_neg (by simpa using h)]
  simp

/-- An element put in front and an element put in the back do not meet. -/
theorem orderedInsert_insertBack (x : α) (s : List α) :
    (insertBack key s a).orderedInsert (fun b c => key c ≤ key b) x
      = insertBack key (s.orderedInsert (fun b c => key c ≤ key b) x) a := by
  induction s with
  | nil =>
    rw [insertBack_nil, List.orderedInsert_nil]
    by_cases hxa : key a ≤ key x
    · rw [insertBack_cons_of_le hxa, List.orderedInsert_cons, if_pos hxa, insertBack_nil]
    · rw [insertBack_cons_of_lt (not_le.mp hxa), List.orderedInsert_cons, if_neg hxa,
        List.orderedInsert_nil]
  | cons b s ih =>
    by_cases hab : key a ≤ key b
    · rw [insertBack_cons_of_le hab, List.orderedInsert_cons, List.orderedInsert_cons]
      by_cases hbx : key b ≤ key x
      · rw [if_pos hbx, if_pos hbx, insertBack_cons_of_le (le_trans hab hbx),
          insertBack_cons_of_le hab]
      · rw [if_neg hbx, if_neg hbx, insertBack_cons_of_le hab, ih]
    · have hba : key b < key a := not_le.mp hab
      rw [insertBack_cons_of_lt hba, List.orderedInsert_cons]
      by_cases hax : key a ≤ key x
      · have hbx : key b ≤ key x := le_of_lt (lt_of_lt_of_le hba hax)
        rw [if_pos hax, List.orderedInsert_cons, if_pos hbx, insertBack_cons_of_le hax,
          insertBack_cons_of_lt hba]
      · rw [if_neg hax, List.orderedInsert_cons]
        by_cases hbx : key b ≤ key x
        · rw [if_pos hbx, insertBack_cons_of_lt (not_le.mp hax)]
        · rw [if_neg hbx, insertBack_cons_of_lt hba]

/-- The stable sort puts a first element in front of its equals. -/
theorem sorted_cons (x : α) (l : List α) :
    sorted key (x :: l) = (sorted key l).orderedInsert (fun b c => key c ≤ key b) x := by
  have htrans : ∀ a b c : α, decide (key b ≤ key a) = true → decide (key c ≤ key b) = true →
      decide (key c ≤ key a) = true := by
    intro a b c hab hbc
    rw [decide_eq_true_eq] at hab hbc ⊢
    exact le_trans hbc hab
  have htotal : ∀ a b : α, (decide (key b ≤ key a) || decide (key a ≤ key b)) = true := by
    intro a b
    rw [Bool.or_eq_true, decide_eq_true_eq, decide_eq_true_eq]
    exact le_total _ _
  obtain ⟨front, back, hxl, hl, hfront⟩ := List.mergeSort_cons htrans htotal x l
  have hsorted := List.pairwise_mergeSort htrans htotal (x :: l)
  rw [hxl, List.pairwise_append, List.pairwise_cons] at hsorted
  unfold sorted
  rw [hxl, hl, List.orderedInsert_eq_take_drop]
  rw [List.takeWhile_append_of_pos (by simpa using hfront),
    List.dropWhile_append_of_pos (by simpa using hfront)]
  cases back with
  | nil => simp
  | cons y back =>
    have hyx : key y ≤ key x := by simpa using hsorted.2.1.1 y List.mem_cons_self
    rw [List.takeWhile_cons_of_neg (by simpa using hyx),
      List.dropWhile_cons_of_neg (by simpa using hyx), List.append_nil]

/-- It puts a last element behind its equals. -/
theorem sorted_append (l : List α) (a : α) :
    sorted key (l ++ [a]) = insertBack key (sorted key l) a := by
  induction l with
  | nil => simp [sorted, insertBack, rank]
  | cons x l ih =>
    rw [List.cons_append, sorted_cons, sorted_cons, ih]
    exact orderedInsert_insertBack x _

/-! ## Cutting -/

theorem rank_le_length (s : List α) (a : α) : rank key s a ≤ s.length :=
  (List.takeWhile_prefix _).length_le

/-- The rank in a list that is cut is the rank, cut. -/
theorem rank_take (k : Nat) (s : List α) (a : α) : rank key (s.take k) a = min k (rank key s a) := by
  induction s generalizing k with
  | nil => simp [rank]
  | cons b s ih =>
    cases k with
    | zero => simp [rank]
    | succ k =>
      rw [List.take_succ_cons]
      unfold rank at ih ⊢
      by_cases hab : key a ≤ key b
      · rw [List.takeWhile_cons_of_pos (by simpa using hab),
          List.takeWhile_cons_of_pos (by simpa using hab), List.length_cons, List.length_cons, ih]
        omega
      · rw [List.takeWhile_cons_of_neg (by simpa using hab),
          List.takeWhile_cons_of_neg (by simpa using hab)]
        simp

/-- **One arrival at a cut list** is the arrival at the whole list, cut. -/
theorem push_take (k : Nat) (s : List α) (a : α) :
    push key k (s.take k) a = (insertBack key s a).take k := by
  unfold push
  have hrank : rank key (s.take k) a = min k (rank key s a) := rank_take k s a
  have hlen : rank key s a ≤ s.length := rank_le_length s a
  rcases Nat.lt_or_ge (rank key s a) k with hlt | hge
  · rw [Nat.min_eq_right (Nat.le_of_lt hlt)] at hrank
    rw [if_neg (by omega)]
    unfold insertBack
    rw [hrank, List.take_take, Nat.min_eq_left (Nat.le_of_lt hlt), List.drop_take]
    -- the elements behind it that fit are the same
    rw [List.take_append, List.take_append, List.length_take, Nat.min_eq_left hlen]
    obtain ⟨j, hj⟩ : ∃ j, k - rank key s a = j + 1 := ⟨k - rank key s a - 1, by omega⟩
    have htwice : ∀ t : List α, (t.take (j + 1)).take j = t.take j := by
      intro t
      rw [List.take_take, Nat.min_eq_left (by omega)]
    rw [hj, List.take_succ_cons, List.take_succ_cons, htwice]
  · rw [Nat.min_eq_left hge] at hrank
    rw [if_pos hrank]
    unfold insertBack
    rw [List.take_append_of_le_length, List.take_take, Nat.min_eq_left hge]
    rw [List.length_take]
    omega

/-- **The elements kept at the end**. -/
theorem foldl_push (k : Nat) (l : List α) :
    l.foldl (push key k) [] = (sorted key l).take k := by
  induction l using List.reverseRecOn with
  | nil => simp [sorted]
  | append_singleton l a ih =>
    rw [List.foldl_append, ih, sorted_append]
    exact push_take k _ a

end TopK
