import Mathlib.Data.List.Basic
import Mathlib.Order.MinMax

/-!
# Paging by a cursor

A reader asks for what follows the last key it has seen, gets the first so many
matching entries, and continues behind the last of them. Over entries whose keys
increase, what one page brings is all that matches up to where the cursor is
afterwards, and nothing in it has been seen before.
-/

universe u

namespace Paging

variable {α : Type u} (key : α → Int) (keep : α → Bool)

/-- The matching entries behind the cursor. -/
def behind (since : Int) (l : List α) : List α := l.filter fun x => decide (since < key x) && keep x

/-- The first `limit` of them. -/
def page (since : Int) (limit : Nat) (l : List α) : List α := (behind key keep since l).take limit

/-- Where the cursor is after a page: at its highest key. -/
def advance (since : Int) (p : List α) : Int := p.foldl (fun c x => max c (key x)) since

variable {key keep} {since : Int} {limit : Nat} {l p : List α} {x : α}

theorem mem_behind : x ∈ behind key keep since l ↔ x ∈ l ∧ since < key x ∧ keep x = true := by
  unfold behind
  rw [List.mem_filter, Bool.and_eq_true, decide_eq_true_iff]

theorem mem_page (h : x ∈ page key keep since limit l) : x ∈ l ∧ since < key x ∧ keep x = true :=
  mem_behind.mp (List.mem_of_mem_take h)

theorem page_sorted (hl : l.Pairwise fun a b => key a < key b) :
    (page key keep since limit l).Pairwise fun a b => key a < key b :=
  (hl.sublist List.filter_sublist).sublist (List.take_sublist ..)

/-! ## The cursor -/

theorem le_advance (since : Int) (p : List α) : since ≤ advance key since p := by
  induction p generalizing since with
  | nil => exact Int.le_refl _
  | cons x p ih => exact le_trans (le_max_left _ _) (ih (max since (key x)))

theorem key_le_advance (h : x ∈ p) : key x ≤ advance key since p := by
  induction p generalizing since with
  | nil => cases h
  | cons y p ih =>
    rcases List.mem_cons.mp h with rfl | h
    · exact le_trans (le_max_right _ _) (le_advance _ p)
    · exact ih h

/-- The cursor is where it was or at an entry of the page. -/
theorem advance_cases (since : Int) (p : List α) :
    advance key since p = since ∨ ∃ x ∈ p, advance key since p = key x := by
  induction p generalizing since with
  | nil => exact Or.inl rfl
  | cons y p ih =>
    rcases ih (max since (key y)) with h | ⟨x, hx, h⟩
    · rcases max_choice since (key y) with hm | hm
      · exact Or.inl (h.trans hm)
      · exact Or.inr ⟨y, List.mem_cons_self .., h.trans hm⟩
    · exact Or.inr ⟨x, List.mem_cons_of_mem y hx, h⟩

/-! ## What a page leaves out -/

/-- A page that is not full leaves nothing behind. -/
theorem page_of_length_lt (h : (page key keep since limit l).length < limit) :
    page key keep since limit l = behind key keep since l := by
  unfold page at h ⊢
  rw [List.length_take] at h
  exact List.take_of_length_le (by omega)

/-- **A page holds all that matches up to its cursor.** -/
theorem mem_page_of_le_advance (hl : l.Pairwise fun a b => key a < key b)
    (hx : x ∈ behind key keep since l)
    (hle : key x ≤ advance key since (page key keep since limit l)) :
    x ∈ page key keep since limit l := by
  have hsorted : (behind key keep since l).Pairwise fun a b => key a < key b :=
    hl.sublist List.filter_sublist
  unfold page at hle ⊢
  rw [← List.take_append_drop limit (behind key keep since l), List.mem_append] at hx
  rcases hx with hx | hx
  · exact hx
  · -- an entry behind the page lies behind the cursor, unless the page is empty
    have hcases := @advance_cases α key since ((behind key keep since l).take limit)
    rcases hcases with h | ⟨y, hy, h⟩
    · have hpos := (mem_behind.mp (List.mem_of_mem_drop hx)).2.1
      omega
    · rw [← List.take_append_drop limit (behind key keep since l), List.pairwise_append] at hsorted
      have := hsorted.2.2 y hy x hx
      omega

/-- Pages read one behind the other are one increasing list. -/
theorem append_sorted {done : List α} (hdone : done.Pairwise fun a b => key a < key b)
    (hseen : ∀ y ∈ done, key y ≤ since) (hp : p.Pairwise fun a b => key a < key b)
    (hbehind : ∀ y ∈ p, since < key y) : (done ++ p).Pairwise fun a b => key a < key b := by
  rw [List.pairwise_append]
  exact ⟨hdone, hp, fun a ha b hb => lt_of_le_of_lt (hseen a ha) (hbehind b hb)⟩

end Paging
