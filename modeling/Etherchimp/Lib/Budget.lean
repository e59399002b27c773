import Mathlib

/-!
# Budgets that refill with time

A component takes labels that each carry a time and grants some of them. What
limits the grants is a level: it never exceeds a cap, it rises at most at a fixed
rate, and every grant takes one from it. Such a component grants at most
`cap + rate * d` labels in any window of length `d`, wherever the window starts
and however the run goes on around it.

`Meter` is the level with those facts. `asOf t s` is whatever a state has to
satisfy to be read at time `t`, so the level may speak of the time that has
passed since the state was written.
-/

universe u v w

namespace Budget

variable {σ : Type u} {α : Type v} {K : Type w}

/-- The labels of a run that are granted. -/
def granted (step : σ → α → σ) (grant : σ → α → Bool) : σ → List α → List α
  | _, [] => []
  | s, a :: l =>
      if grant s a then a :: granted step grant (step s a) l else granted step grant (step s a) l

/-- No label is earlier than the one before it. -/
def Chronological [LE K] (time : α → K) (l : List α) : Prop :=
  l.Pairwise fun a b => time a ≤ time b

/-- Being granted nothing adds nothing; being granted one adds one. -/
def charge [Zero K] [One K] (b : Bool) : K := if b then 1 else 0

theorem granted_cons (step : σ → α → σ) (grant : σ → α → Bool) (s : σ) (a : α) (l : List α) :
    granted step grant s (a :: l) = if grant s a then a :: granted step grant (step s a) l
      else granted step grant (step s a) l := rfl

theorem granted_sublist (step : σ → α → σ) (grant : σ → α → Bool) :
    ∀ (s : σ) (l : List α), (granted step grant s l).Sublist l
  | _, [] => List.Sublist.slnil
  | s, a :: l => by
      have ih := granted_sublist step grant (step s a) l
      rw [granted_cons]
      split
      · exact ih.cons_cons a
      · exact ih.cons a

theorem granted_append (step : σ → α → σ) (grant : σ → α → Bool) (s : σ) (l l' : List α) :
    granted step grant s (l ++ l')
      = granted step grant s l ++ granted step grant (l.foldl step s) l' := by
  induction l generalizing s with
  | nil => rfl
  | cons a l ih =>
    rw [List.cons_append, granted_cons, granted_cons, ih]
    split
    · rfl
    · rfl

variable [Field K] [LinearOrder K] [IsStrictOrderedRing K]

/-- A level that bounds what is granted. -/
structure Meter (step : σ → α → σ) (grant : σ → α → Bool) (time : α → K) (cap rate : K) where
  level : σ → K → K
  asOf : K → σ → Prop
  rate_nonneg : 0 ≤ rate
  later : ∀ {t t' s}, asOf t s → t ≤ t' → asOf t' s
  kept : ∀ {s a}, asOf (time a) s → asOf (time a) (step s a)
  nonneg : ∀ {t s}, asOf t s → 0 ≤ level s t
  le_cap : ∀ {t s}, asOf t s → level s t ≤ cap
  rises : ∀ {t t' s}, asOf t s → t ≤ t' → level s t' ≤ level s t + rate * (t' - t)
  pays : ∀ {s a}, asOf (time a) s →
    level (step s a) (time a) + charge (grant s a) ≤ level s (time a)

namespace Meter

variable {step : σ → α → σ} {grant : σ → α → Bool} {time : α → K} {cap rate : K}
  (m : Meter step grant time cap rate)
include m

/-- What is granted from `t` until `w` comes out of the level at `t` and the refill since. -/
theorem granted_until {w : K} : ∀ {l : List α} {s : σ} {t : K}, Chronological time l →
    (∀ a ∈ l, t ≤ time a) → m.asOf t s → t ≤ w →
    ((granted step grant s l).countP (fun a => decide (time a ≤ w)) : K)
      ≤ m.level s t + rate * (w - t) := by
  intro l
  induction l with
  | nil =>
    intro s t _ _ hs hw
    have h0 := m.nonneg hs
    have hr := mul_nonneg m.rate_nonneg (sub_nonneg.mpr hw)
    simpa [granted] using add_nonneg h0 hr
  | cons a l ih =>
    intro s t hl hfrom hs hw
    have hta : t ≤ time a := hfrom a (List.mem_cons_self ..)
    have hrest : ∀ b ∈ l, time a ≤ time b := (List.pairwise_cons.mp hl).1
    rcases le_or_gt (time a) w with ha | ha
    · -- the label is in the window: its charge is paid, the rest starts at its time
      have hsa := m.later hs hta
      have hcount := ih (List.Pairwise.of_cons hl) hrest (m.kept hsa) ha
      have hpay := m.pays hsa
      have hrise := m.rises hs hta
      have hstep : ((granted step grant s (a :: l)).countP (fun b => decide (time b ≤ w)) : K)
          = (granted step grant (step s a) l).countP (fun b => decide (time b ≤ w))
            + charge (grant s a) := by
        rw [granted_cons, charge]
        cases grant s a
        · simp
        · simp [ha]
      rw [hstep]
      linarith
    · -- it is past the window, and so is everything after it
      have hnone : (granted step grant s (a :: l)).countP (fun b => decide (time b ≤ w)) = 0 := by
        rw [List.countP_eq_zero]
        intro b hb
        have hlate : w < time b := by
          rcases List.mem_cons.mp ((granted_sublist step grant s _).subset hb) with rfl | hb
          · exact ha
          · exact lt_of_lt_of_le ha (hrest b hb)
        simpa using hlate
      have h0 := m.nonneg hs
      have hr := mul_nonneg m.rate_nonneg (sub_nonneg.mpr hw)
      rw [hnone, Nat.cast_zero]
      exact add_nonneg h0 hr

/-- **No window sees more than the cap and what is refilled during it.** -/
theorem granted_window {w w' : K} (hw : w ≤ w') : ∀ {l : List α} {s : σ} {t : K},
    Chronological time l → (∀ a ∈ l, t ≤ time a) → m.asOf t s → t ≤ w →
    ((granted step grant s l).countP (fun a => decide (w ≤ time a ∧ time a ≤ w')) : K)
      ≤ cap + rate * (w' - w) := by
  intro l
  induction l with
  | nil =>
    intro s t _ _ hs _
    have h0 := (m.nonneg hs).trans (m.le_cap hs)
    have hr := mul_nonneg m.rate_nonneg (sub_nonneg.mpr hw)
    simpa [granted] using add_nonneg h0 hr
  | cons a l ih =>
    intro s t hl hfrom hs ht
    have hrest : ∀ b ∈ l, time a ≤ time b := (List.pairwise_cons.mp hl).1
    rcases lt_or_ge (time a) w with ha | ha
    · -- before the window nothing counts
      have hsa := m.later hs (hfrom a (List.mem_cons_self ..))
      have hcount := ih (List.Pairwise.of_cons hl) hrest (m.kept hsa) ha.le
      have hskip : (granted step grant s (a :: l)).countP
            (fun b => decide (w ≤ time b ∧ time b ≤ w'))
          = (granted step grant (step s a) l).countP
            (fun b => decide (w ≤ time b ∧ time b ≤ w')) := by
        rw [granted_cons]
        split
        · simp [not_le.mpr ha]
        · rfl
      rw [hskip]
      exact hcount
    · -- the window has begun: the level is at most the cap
      have hsw := m.later hs ht
      have hall : ∀ b ∈ a :: l, w ≤ time b := by
        intro b hb
        rcases List.mem_cons.mp hb with rfl | hb
        · exact ha
        · exact ha.trans (hrest b hb)
      have hsame : (granted step grant s (a :: l)).countP
            (fun b => decide (w ≤ time b ∧ time b ≤ w'))
          = (granted step grant s (a :: l)).countP (fun b => decide (time b ≤ w')) := by
        apply List.countP_congr
        intro b hb
        have hwb := hall b ((granted_sublist step grant s _).subset hb)
        simp [hwb]
      have hcount := m.granted_until hl hall hsw hw
      have hcap := m.le_cap hsw
      rw [hsame]
      linarith

/-- The window may start anywhere when the first state can be read at any time. -/
theorem granted_window_init {s : σ} (hs : ∀ t, m.asOf t s) {l : List α}
    (hl : Chronological time l) {w w' : K} (hw : w ≤ w') :
    ((granted step grant s l).countP (fun a => decide (w ≤ time a ∧ time a ≤ w')) : K)
      ≤ cap + rate * (w' - w) := by
  cases l with
  | nil => exact m.granted_window hw hl nofun (hs w) (le_refl w)
  | cons a l =>
    have hfrom : ∀ b ∈ a :: l, min (time a) w ≤ time b := by
      intro b hb
      rcases List.mem_cons.mp hb with rfl | hb
      · exact min_le_left _ _
      · exact (min_le_left _ _).trans ((List.pairwise_cons.mp hl).1 b hb)
    exact m.granted_window hw hl hfrom (hs _) (min_le_right _ _)

end Meter

end Budget
