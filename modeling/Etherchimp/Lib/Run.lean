import Mathlib.Data.List.Induction

/-!
# Runs of a transition function

A system is a state, a step for each label, and a guard saying which labels may
be taken where. A run is a list of labels. `Guarded` says every step of the run
met the guard in the state it was taken in, and `exec` is the state reached.

The two rules below are the only inductions over runs a development needs: an
invariant that may mention the labels taken so far, and the special case of one
that does not.
-/

universe u v

namespace Run

variable {σ : Type u} {α : Type v}

/-- The state a run reaches. -/
def exec (step : σ → α → σ) (s : σ) (l : List α) : σ := l.foldl step s

/-- The labels of a run, each with the state it is taken in. -/
def taken (step : σ → α → σ) : σ → List α → List (σ × α)
  | _, [] => []
  | s, a :: l => (s, a) :: taken step (step s a) l

/-- Every step of the run meets the guard in the state it is taken in. -/
def Guarded (step : σ → α → σ) (ok : σ → α → Prop) : σ → List α → Prop
  | _, [] => True
  | s, a :: l => ok s a ∧ Guarded step ok (step s a) l

variable {step : σ → α → σ} {ok : σ → α → Prop}

instance [∀ s a, Decidable (ok s a)] : ∀ (s : σ) (l : List α), Decidable (Guarded step ok s l)
  | _, [] => inferInstanceAs (Decidable True)
  | s, a :: l =>
      have : Decidable (Guarded step ok (step s a) l) := instDecidableGuarded (step s a) l
      inferInstanceAs (Decidable (ok s a ∧ Guarded step ok (step s a) l))

@[simp] theorem exec_nil (s : σ) : exec step s [] = s := rfl

@[simp] theorem exec_cons (s : σ) (a : α) (l : List α) :
    exec step s (a :: l) = exec step (step s a) l := rfl

theorem exec_append (s : σ) (l l' : List α) :
    exec step s (l ++ l') = exec step (exec step s l) l' := List.foldl_append ..

theorem exec_concat (s : σ) (l : List α) (a : α) :
    exec step s (l ++ [a]) = step (exec step s l) a := exec_append s l [a]

theorem taken_concat (s : σ) (l : List α) (a : α) :
    taken step s (l ++ [a]) = taken step s l ++ [(exec step s l, a)] := by
  induction l generalizing s with
  | nil => rfl
  | cons b l ih => exact congrArg ((s, b) :: ·) (ih (step s b))

theorem guarded_append {s : σ} {l l' : List α} :
    Guarded step ok s (l ++ l') ↔ Guarded step ok s l ∧ Guarded step ok (exec step s l) l' := by
  induction l generalizing s with
  | nil => simp [Guarded]
  | cons a l ih => simp [Guarded, ih, and_assoc]

theorem Guarded.mono {ok' : σ → α → Prop} (h : ∀ s a, ok s a → ok' s a) :
    ∀ {s : σ} {l : List α}, Guarded step ok s l → Guarded step ok' s l
  | _, [], _ => trivial
  | _, _ :: _, hg => ⟨h _ _ hg.1, Guarded.mono h hg.2⟩

/--
**The induction rule for runs.** `P` holds of the labels taken so far together
with the state they lead to, as soon as it holds of the empty run and every
guarded step extends it.
-/
theorem history_invariant {P : List α → σ → Prop} {s₀ : σ} (h0 : P [] s₀)
    (hs : ∀ done s a, P done s → ok s a → P (done ++ [a]) (step s a))
    {l : List α} (hg : Guarded step ok s₀ l) : P l (exec step s₀ l) := by
  induction l using List.reverseRecOn with
  | nil => exact h0
  | append_singleton l a ih =>
    obtain ⟨hl, ha, _⟩ := guarded_append.mp hg
    rw [exec_concat]
    exact hs l _ a (ih hl) ha

/-- The rule for an invariant of the state alone. -/
theorem invariant {P : σ → Prop} {s₀ : σ} (h0 : P s₀)
    (hs : ∀ s a, P s → ok s a → P (step s a))
    {l : List α} (hg : Guarded step ok s₀ l) : P (exec step s₀ l) :=
  history_invariant (P := fun _ => P) h0 (fun _ s a => hs s a) hg

/-- A guard on the labels alone. -/
theorem guarded_of_forall {p : α → Prop} (s : σ) {l : List α} (h : ∀ a ∈ l, p a) :
    Guarded step (fun _ a => p a) s l := by
  induction l generalizing s with
  | nil => trivial
  | cons a l ih =>
    exact ⟨h a (List.mem_cons_self ..), ih (step s a) fun b hb => h b (List.mem_cons_of_mem _ hb)⟩

/-- Two guards met step by step are met together. -/
theorem Guarded.and {ok' : σ → α → Prop} : ∀ {s : σ} {l : List α}, Guarded step ok s l →
    Guarded step ok' s l → Guarded step (fun s a => ok s a ∧ ok' s a) s l
  | _, [], _, _ => trivial
  | _, _ :: _, h, h' => ⟨⟨h.1, h'.1⟩, Guarded.and h.2 h'.2⟩

/-- Two guards that agree on some labels, wherever an invariant holds, are met by the same runs. -/
theorem guarded_congr_on {ok' : σ → α → Prop} {P : σ → Prop} {q : α → Prop}
    (hiff : ∀ s a, P s → q a → (ok s a ↔ ok' s a))
    (hs : ∀ s a, P s → q a → ok' s a → P (step s a)) :
    ∀ {s : σ} {l : List α}, P s → (∀ a ∈ l, q a) → (Guarded step ok s l ↔ Guarded step ok' s l)
  | _, [], _, _ => Iff.rfl
  | s, a :: l, h, hq => by
      have ha := hq a (List.mem_cons_self ..)
      have hl : ∀ b ∈ l, q b := fun b hb => hq b (List.mem_cons_of_mem _ hb)
      unfold Guarded
      rw [hiff s a h ha]
      exact and_congr_right fun hok => guarded_congr_on hiff hs (hs s a h ha hok) hl

theorem guarded_congr {ok' : σ → α → Prop} {P : σ → Prop}
    (hiff : ∀ s a, P s → (ok s a ↔ ok' s a)) (hs : ∀ s a, P s → ok' s a → P (step s a))
    {s : σ} {l : List α} (h : P s) : Guarded step ok s l ↔ Guarded step ok' s l :=
  guarded_congr_on (q := fun _ => True) (fun s a h _ => hiff s a h) (fun s a h _ => hs s a h) h
    fun _ _ => trivial

/-- A run with no guard. -/
theorem guarded_true (s : σ) (l : List α) : Guarded step (fun _ _ => True) s l :=
  guarded_of_forall s fun _ _ => trivial

end Run
