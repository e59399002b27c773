import Mathlib.Data.List.Infix

/-!
# Joining with a separator

When a separator has no border (no proper non-empty prefix that is also a
suffix), two of its occurrences cannot overlap. Joining two words with it is then
a code: if the left words do not contain the separator, the joined word
determines both halves.
-/

universe u

namespace Separator

variable {α : Type u}

/-- No proper non-empty prefix of `sep` is a suffix of it. -/
def Unbordered (sep : List α) : Prop :=
  ∀ p, p ≠ [] → p <+: sep → p <:+ sep → p = sep

theorem unbordered_of_tails [DecidableEq α] {sep : List α}
    (h : ∀ p ∈ sep.tails, p ≠ [] → p <+: sep → p = sep) : Unbordered sep :=
  fun p hne hpre hsuf => h p ((List.mem_tails p sep).mpr hsuf) hne hpre

/-- One half of `join_inj`: the left words cannot differ by a suffix `t`. -/
private theorem overlap_nil {sep t b d : List α} (hu : Unbordered sep)
    (hfree : ¬ sep <:+: t) (h : sep ++ b = t ++ (sep ++ d)) : t = [] := by
  rcases List.append_eq_append_iff.mp h with ⟨r, ht, _⟩ | ⟨r, hsep, hr⟩
  · exact absurd ⟨[], r, by simp [ht]⟩ hfree
  · -- `r` is what is left of the first occurrence: a suffix of `sep` and a prefix of `sep ++ d`
    by_contra hne
    have hlt : r.length < sep.length := by
      have := congrArg List.length hsep
      have := List.length_pos_iff.mpr hne
      simp only [List.length_append] at *; omega
    have hpre : r <+: sep :=
      List.prefix_of_prefix_length_le ⟨b, hr.symm⟩ (List.prefix_append sep d) (by omega)
    have hrne : r ≠ [] := by
      intro hr0
      subst hr0
      rw [List.append_nil] at hsep
      exact hfree (hsep ▸ List.infix_refl _)
    have := hu r hrne hpre ⟨t, hsep.symm⟩
    rw [this] at hlt
    exact Nat.lt_irrefl _ hlt

/-- **Joining is injective on words that do not contain the separator.** -/
theorem join_inj {sep a b c d : List α} (hu : Unbordered sep)
    (ha : ¬ sep <:+: a) (hc : ¬ sep <:+: c) (h : a ++ (sep ++ b) = c ++ (sep ++ d)) :
    a = c ∧ b = d := by
  have hac : a = c := by
    rcases List.append_eq_append_iff.mp h with ⟨t, hct, ht⟩ | ⟨t, hat, ht⟩
    · have hfree : ¬ sep <:+: t := fun hi =>
        hc (hct ▸ hi.trans (List.suffix_append a t).isInfix)
      rw [hct, overlap_nil hu hfree ht, List.append_nil]
    · have hfree : ¬ sep <:+: t := fun hi =>
        ha (hat ▸ hi.trans (List.suffix_append c t).isInfix)
      rw [hat, overlap_nil hu hfree ht, List.append_nil]
  subst hac
  exact ⟨rfl, List.append_cancel_left (List.append_cancel_left h)⟩

/-! ## A separator of one letter -/

theorem unbordered_singleton (x : α) : Unbordered [x] := by
  intro p hne hpre _
  rcases List.prefix_cons_iff.mp hpre with rfl | ⟨t, rfl, ht⟩
  · exact absurd rfl hne
  · rw [List.prefix_nil.mp ht]

/-- Two words are the same when cut at their first `x`. -/
theorem first_inj {x : α} {a b c d : List α} (ha : x ∉ a) (hc : x ∉ c)
    (h : a ++ x :: b = c ++ x :: d) : a = c ∧ b = d := by
  have hfree : ∀ {l : List α}, x ∉ l → ¬ [x] <:+: l := fun hl hi =>
    hl (hi.subset (List.mem_singleton_self x))
  exact join_inj (unbordered_singleton x) (hfree ha) (hfree hc) h

/-- Two words are the same when cut at their last `x`. -/
theorem last_inj {x : α} {a b c d : List α} (hb : x ∉ b) (hd : x ∉ d)
    (h : a ++ x :: b = c ++ x :: d) : a = c ∧ b = d := by
  have hrev := congrArg List.reverse h
  simp only [List.reverse_append, List.reverse_cons, List.append_assoc, List.singleton_append]
    at hrev
  obtain ⟨hbd, hac⟩ := first_inj (by simpa using hb) (by simpa using hd) hrev
  exact ⟨List.reverse_injective hac, List.reverse_injective hbd⟩

/-! ## Cutting again -/

/-- What stands before and after the first occurrence of `sep`. -/
def cut [DecidableEq α] (sep : List α) : List α → Option (List α × List α)
  | [] => if sep = [] then some ([], []) else none
  | x :: l =>
      if sep <+: x :: l then some ([], (x :: l).drop sep.length)
      else (cut sep l).map fun p => (x :: p.1, p.2)

/-- **Cutting undoes joining.** -/
theorem cut_join [DecidableEq α] {sep a b : List α} (hu : Unbordered sep)
    (ha : ¬ sep <:+: a) : cut sep (a ++ (sep ++ b)) = some (a, b) := by
  induction a with
  | nil =>
    cases sep with
    | nil => exact absurd (List.nil_infix) ha
    | cons s sep =>
      have hpre : s :: sep <+: s :: (sep ++ b) := List.prefix_append (s :: sep) b
      rw [List.nil_append, List.cons_append, cut, if_pos hpre, ← List.cons_append, List.drop_left]
  | cons x a ih =>
    -- an earlier occurrence would overlap the one that was put there
    have hpre : ¬ sep <+: x :: (a ++ (sep ++ b)) := by
      intro ⟨r, hr⟩
      have hnil := overlap_nil (t := x :: a) hu ha hr
      cases hnil
    rw [List.cons_append, cut, if_neg hpre, ih fun h => ha (h.trans (List.suffix_cons x a).isInfix)]
    rfl

/-! ## Looking for a word in joined words -/

/-- A word without the separator does not reach across it. -/
theorem within_join {x : α} {q a b : List α} (hq : x ∉ q) :
    q <:+: a ++ x :: b ↔ q <:+: a ∨ q <:+: b := by
  constructor
  · rintro ⟨s, t, h⟩
    rw [List.append_assoc] at h
    rcases List.append_eq_append_iff.mp h with ⟨r, ha, hr⟩ | ⟨r, hs, hr⟩
    · -- it begins before the separator, so it ends before it
      rcases List.append_eq_append_iff.mp hr with ⟨r', hr', -⟩ | ⟨r', hq', hx⟩
      · exact Or.inl ⟨s, r', by rw [ha, hr', List.append_assoc]⟩
      · cases r' with
        | nil => exact Or.inl ⟨s, [], by rw [ha, hq', List.append_nil, List.append_nil]⟩
        | cons y r' =>
          have hy : x = y := (List.cons.inj hx).1
          exact absurd (by rw [hq', hy]; simp) hq
    · cases r with
      | nil =>
        -- it begins at the separator, so it is empty
        cases q with
        | nil => exact Or.inl (List.nil_infix)
        | cons y q => exact absurd ((List.cons.inj hr).1 ▸ List.mem_cons_self) hq
      | cons y r =>
        exact Or.inr ⟨r, t, by rw [List.append_assoc]; exact (List.cons.inj hr).2.symm⟩
  · rintro (h | h)
    · exact h.trans (List.prefix_append a (x :: b)).isInfix
    · exact h.trans ((List.suffix_cons x b).trans (List.suffix_append a (x :: b))).isInfix

/-- **It stands in the joined words when it stands in one of them.** -/
theorem within_joined {x : α} {q : List α} (hq : x ∉ q) (words : List (List α)) (a : List α) :
    q <:+: a ++ words.flatMap (fun b => x :: b) ↔ ∃ b ∈ a :: words, q <:+: b := by
  induction words generalizing a with
  | nil => simp
  | cons b words ih =>
    rw [List.flatMap_cons, List.cons_append, within_join hq, ih]
    simp

end Separator
