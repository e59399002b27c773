import Mathlib.Data.List.Basic

/-!
# Words joined by a single character

Writing words one after the other with a separator between them loses where a word
that contains the separator begins and ends. What the text keeps is its pieces, the
runs between separators: two lists of words give one text exactly when their pieces
are the same, and the words are recovered once it is known how many pieces each
one has.
-/

universe u

namespace Fields

variable {α : Type u} [BEq α] [LawfulBEq α] {x : α}

/-- A word, and every further one with the separator before it. -/
def join (x : α) (l : List α) (ls : List (List α)) : List α := l ++ ls.flatMap (x :: ·)

/-- The runs between separators, word by word. -/
def pieces (x : α) (ls : List (List α)) : List (List α) := ls.flatMap (List.splitOn x)

/-- How many pieces each word has. -/
def cuts (x : α) (ls : List (List α)) : List Nat := ls.map fun l => (l.splitOn x).length

theorem splitOn_injective : Function.Injective (List.splitOn x) := by
  intro l m h
  have hl : [x].intercalate (l.splitOn x) = l := List.intercalate_splitOn x
  rw [← hl, h, List.intercalate_splitOn]

/-- Splitting the text gives the pieces of its words. -/
theorem splitOn_join (l : List α) (ls : List (List α)) :
    (join x l ls).splitOn x = pieces x (l :: ls) := by
  induction ls generalizing l with
  | nil => simp [join, pieces]
  | cons m ls ih =>
      have hjoin : join x l (m :: ls) = l ++ x :: join x m ls := by simp [join]
      rw [hjoin, List.splitOn_append_cons_self, ih]
      rfl

/-- **What a text determines.** Two texts are equal exactly when their pieces are. -/
theorem join_eq_iff {l m : List α} {ls ms : List (List α)} :
    join x l ls = join x m ms ↔ pieces x (l :: ls) = pieces x (m :: ms) := by
  rw [← splitOn_join, ← splitOn_join]
  exact splitOn_injective.eq_iff.symm

/-- Pieces together with the number of them in each word determine the words. -/
theorem words_eq {ls ms : List (List α)} (hp : pieces x ls = pieces x ms)
    (hc : cuts x ls = cuts x ms) : ls = ms := by
  have hsplit : ls.map (List.splitOn x) = ms.map (List.splitOn x) := by
    refine List.eq_iff_flatten_eq.mpr ⟨?_, ?_⟩
    · rw [← List.flatMap_def, ← List.flatMap_def]
      exact hp
    · rw [List.map_map, List.map_map]
      exact hc
  exact List.map_injective_iff.mpr splitOn_injective hsplit

end Fields
