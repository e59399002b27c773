import Etherchimp.Lib.Budget

/-!
# Conditions that have lasted

Damping and hysteresis act on a condition only once it has lasted. Over a history of
timed entries, latest last, a condition has held since `t` when some entry came at `t`
and every entry from it to the end meets the condition. It has lasted for `d` at `now`
when it has held since some time no later than `now - d`.

`since_concat` says what one more entry does to that, and is all an invariant of a
timer needs.
-/

universe u

namespace Dwell

variable {α : Type u} {time : α → Int} {p : α → Prop}

/-- Every entry from one that came at `t` to the end of the history meets `p`. -/
def Since (time : α → Int) (p : α → Prop) (t : Int) (l : List α) : Prop :=
  ∃ done a held, l = done ++ a :: held ∧ time a = t ∧ ∀ b ∈ a :: held, p b

/-- At `now` the condition has held for `d`. -/
def Lasted (time : α → Int) (p : α → Prop) (d now : Int) (l : List α) : Prop :=
  ∃ t, Since time p t l ∧ t + d ≤ now

theorem not_since_nil {t : Int} : ¬ Since time p t [] := by
  rintro ⟨done, a, held, heq, _⟩
  cases done <;> cases heq

/-- A condition held since `t` with the new entry iff the new entry meets it, and either
starts it or finds it held. -/
theorem since_concat {t : Int} {l : List α} {a : α} :
    Since time p t (l ++ [a]) ↔ p a ∧ (time a = t ∨ Since time p t l) := by
  constructor
  · rintro ⟨done, b, held, heq, ht, hheld⟩
    rcases List.eq_nil_or_concat' held with rfl | ⟨held, z, rfl⟩
    · -- the new entry stands alone
      obtain ⟨_, hab⟩ := List.append_inj' heq rfl
      obtain rfl : a = b := List.singleton_inj.mp hab
      exact ⟨hheld a (List.mem_singleton_self a), Or.inl ht⟩
    · rw [← List.cons_append, ← List.append_assoc] at heq
      obtain ⟨hl, haz⟩ := List.append_inj' heq rfl
      obtain rfl : a = z := List.singleton_inj.mp haz
      refine ⟨hheld a ?_, Or.inr ⟨done, b, held, hl, ht, fun x hx => hheld x ?_⟩⟩
      · exact List.mem_cons_of_mem _ (List.mem_append_right _ (List.mem_singleton_self a))
      · rw [← List.cons_append]
        exact List.mem_append_left _ hx
  · rintro ⟨ha, ht | ⟨done, b, held, rfl, ht, hheld⟩⟩
    · refine ⟨l, a, [], rfl, ht, fun x hx => ?_⟩
      rw [List.mem_singleton.mp hx]
      exact ha
    · refine ⟨done, b, held ++ [a], List.append_assoc .., ht, fun x hx => ?_⟩
      rw [← List.cons_append, List.mem_append, List.mem_singleton] at hx
      rcases hx with hx | rfl
      · exact hheld x hx
      · exact ha

/-- The new entry starts the condition. -/
theorem Since.start {l : List α} {a : α} (h : p a) : Since time p (time a) (l ++ [a]) :=
  since_concat.mpr ⟨h, Or.inl rfl⟩

theorem Since.concat {t : Int} {l : List α} {a : α} (h : Since time p t l) (ha : p a) :
    Since time p t (l ++ [a]) :=
  since_concat.mpr ⟨ha, Or.inr h⟩

/-- What has held since `t` started no later than a new entry of a chronological history. -/
theorem Since.le {t : Int} {l : List α} {a : α} (h : Since time p t l)
    (hl : Budget.Chronological time (l ++ [a])) : t ≤ time a := by
  obtain ⟨done, b, held, rfl, rfl, _⟩ := h
  have hb : b ∈ done ++ b :: held := List.mem_append_right _ (List.mem_cons_self ..)
  exact (List.pairwise_append.mp hl).2.2 b hb a (List.mem_singleton_self a)

/-- A condition that has lasted for a while was met by an earlier entry already. -/
theorem lasted_concat {d now : Int} {l : List α} {a : α} (hd : now < time a + d) :
    Lasted time p d now (l ++ [a]) ↔ p a ∧ Lasted time p d now l := by
  constructor
  · rintro ⟨t, hsince, ht⟩
    obtain ⟨ha, hstart | hsince⟩ := since_concat.mp hsince
    · omega
    · exact ⟨ha, t, hsince, ht⟩
  · rintro ⟨ha, t, hsince, ht⟩
    exact ⟨t, hsince.concat ha, ht⟩

end Dwell
