import Mathlib.Data.List.Basic

/-!
# Computations that can panic

A language with run-time checks stops the program when an index or a slice is out
of range, when a nil pointer is read, or when a closed channel is used. `Except
Panic` is a computation of such a language, and `Runs` says that it ends without a
panic.

Safety is proved by walking the computation: `runs_bind_iff` peels off one
statement, and each checked read has a lemma saying exactly when it runs. `Ends`
adds what holds of the result, which is what an invariant kept by a loop needs.
-/

universe u v

/-- Why the program stopped. -/
inductive Panic where
  | indexOutOfRange (i len : Nat)
  | sliceOutOfRange (n len : Nat)
  | nilDereference
  | sendOnClosed
  | closeOfClosed
  deriving DecidableEq

namespace Panic

variable {α β : Type u}

/-- Read `xs[i]`. -/
def index (xs : List α) (i : Nat) : Except Panic α :=
  match xs[i]? with
  | some x => .ok x
  | none => .error (.indexOutOfRange i xs.length)

/-- Take `xs[:n]`. -/
def slice (xs : List α) (n : Nat) : Except Panic (List α) :=
  if n ≤ xs.length then .ok (xs.take n) else .error (.sliceOutOfRange n xs.length)

/-- Read through a pointer. -/
def deref : Option α → Except Panic α
  | some x => .ok x
  | none => .error .nilDereference

/-- `a && b`: the second operand is evaluated only when the first holds. -/
def andThen (a : Bool) (b : Except Panic Bool) : Except Panic Bool := if a then b else .ok false

/-- The computation ends without a panic. -/
def Runs (x : Except Panic α) : Prop := ∃ a, x = .ok a

@[simp] theorem runs_ok (a : α) : Runs (.ok a) := ⟨a, rfl⟩

@[simp] theorem runs_pure (a : α) : Runs (pure a) := ⟨a, rfl⟩

@[simp] theorem not_runs_error (e : Panic) : ¬ Runs (.error e : Except Panic α) :=
  fun ⟨_, h⟩ => by cases h

theorem ok_bind (a : α) (f : α → Except Panic β) : (Except.ok a >>= f) = f a := rfl

/-- A sequence of two statements runs when the first does and the second does after it. -/
theorem runs_bind_iff {x : Except Panic α} {f : α → Except Panic β} :
    Runs (x >>= f) ↔ ∃ a, x = .ok a ∧ Runs (f a) := by
  cases x with
  | error e => exact ⟨fun h => absurd h (not_runs_error e), fun ⟨_, h, _⟩ => by cases h⟩
  | ok a => exact ⟨fun h => ⟨a, rfl, h⟩, fun ⟨_, h, hf⟩ => by cases h; exact hf⟩

/-- The rule for a first statement that always runs. -/
theorem Runs.bind {x : Except Panic α} {f : α → Except Panic β} (hx : Runs x)
    (hf : ∀ a, x = .ok a → Runs (f a)) : Runs (x >>= f) := by
  obtain ⟨a, ha⟩ := hx
  exact runs_bind_iff.mpr ⟨a, ha, hf a ha⟩

theorem Runs.map {x : Except Panic α} (hx : Runs x) (f : α → β) : Runs (x.map f) := by
  obtain ⟨a, rfl⟩ := hx
  exact ⟨f a, rfl⟩

/-- When the second statement always runs, only the first matters. -/
theorem runs_bind_left {x : Except Panic α} {f : α → Except Panic β} (hf : ∀ a, Runs (f a)) :
    Runs (x >>= f) ↔ Runs x :=
  ⟨fun h => (runs_bind_iff.mp h).imp fun _ h => h.1, fun h => h.bind fun a _ => hf a⟩

theorem runs_index_iff {xs : List α} {i : Nat} : Runs (index xs i) ↔ i < xs.length := by
  unfold index
  by_cases h : i < xs.length
  · rw [List.getElem?_eq_getElem h]
    exact ⟨fun _ => h, fun _ => runs_ok _⟩
  · rw [List.getElem?_eq_none (Nat.le_of_not_lt h)]
    exact ⟨fun hr => absurd hr (not_runs_error _), fun hi => absurd hi h⟩

theorem runs_slice_iff {xs : List α} {n : Nat} : Runs (slice xs n) ↔ n ≤ xs.length := by
  unfold slice
  by_cases h : n ≤ xs.length
  · rw [if_pos h]
    exact ⟨fun _ => h, fun _ => runs_ok _⟩
  · rw [if_neg h]
    exact ⟨fun hr => absurd hr (not_runs_error _), fun hn => absurd hn h⟩

theorem Runs.andThen {a : Bool} {b : Except Panic Bool} (hb : a = true → Runs b) :
    Runs (andThen a b) := by
  unfold Panic.andThen
  split
  · rename_i h; exact hb h
  · exact runs_ok _

/-! ## Computations with a postcondition -/

/-- The computation ends without a panic, in a result with the property. -/
def Ends (x : Except Panic α) (Q : α → Prop) : Prop := ∃ a, x = .ok a ∧ Q a

theorem Ends.runs {x : Except Panic α} {Q : α → Prop} (h : Ends x Q) : Runs x :=
  h.imp fun _ ha => ha.1

theorem ends_ok {a : α} {Q : α → Prop} (h : Q a) : Ends (.ok a) Q := ⟨a, rfl, h⟩

theorem ends_pure {a : α} {Q : α → Prop} (h : Q a) : Ends (pure a) Q := ⟨a, rfl, h⟩

theorem Ends.bind {x : Except Panic α} {f : α → Except Panic β} {P : α → Prop} {Q : β → Prop}
    (hx : Ends x P) (hf : ∀ a, P a → Ends (f a) Q) : Ends (x >>= f) Q := by
  obtain ⟨a, rfl, ha⟩ := hx
  exact hf a ha

/-- **The loop rule.** What one iteration preserves, the loop preserves. -/
theorem Ends.foldlM {f : β → α → Except Panic β} {P : β → Prop}
    (hf : ∀ s a, P s → Ends (f s a) P) : ∀ (l : List α) {s : β}, P s → Ends (l.foldlM f s) P
  | [], _, hs => ends_pure hs
  | a :: l, s, hs => (hf s a hs).bind fun _ hs' => Ends.foldlM hf l hs'

theorem runs_deref_iff {p : Option α} : Runs (deref p) ↔ ∃ a, p = some a := by
  cases p with
  | none => exact ⟨fun h => absurd h (not_runs_error _), fun ⟨_, h⟩ => by cases h⟩
  | some a => exact ⟨fun _ => ⟨a, rfl⟩, fun _ => runs_ok a⟩

/-! ## What a computation leaves when it ends -/

/-- If the computation ends without a panic, its result has the property. -/
def Leaves (x : Except Panic α) (Q : α → Prop) : Prop := ∀ a, x = .ok a → Q a

theorem leaves_ok {a : α} {Q : α → Prop} (h : Q a) : Leaves (.ok a) Q := by
  intro b hb
  cases hb
  exact h

theorem leaves_pure {a : α} {Q : α → Prop} (h : Q a) : Leaves (pure a) Q := leaves_ok h

/-- What the second statement leaves, whatever the first one does. -/
theorem Leaves.bind {x : Except Panic α} {f : α → Except Panic β} {P : α → Prop} {Q : β → Prop}
    (hx : Leaves x P) (hf : ∀ a, P a → Leaves (f a) Q) : Leaves (x >>= f) Q := by
  intro b hb
  cases x with
  | error e => cases hb
  | ok a => exact hf a (hx a rfl) b hb

theorem leaves_bind {x : Except Panic α} {f : α → Except Panic β} {Q : β → Prop}
    (hf : ∀ a, x = .ok a → Leaves (f a) Q) : Leaves (x >>= f) Q := by
  intro b hb
  cases x with
  | error e => cases hb
  | ok a => exact hf a rfl b hb

/-- The loop rule for an invariant that knows which elements have been visited. -/
theorem Leaves.foldlM_visited {γ : Type v} {f : β → γ → Except Panic β} {P : List γ → β → Prop}
    (hf : ∀ done s a, P done s → Leaves (f s a) (P (done ++ [a]))) :
    ∀ (l : List γ) {done : List γ} {s : β}, P done s → Leaves (l.foldlM f s) (P (done ++ l))
  | [], done, _, hs => leaves_pure ((List.append_nil done).symm ▸ hs)
  | a :: l, done, s, hs => by
      have hstep := hf done s a hs
      refine hstep.bind fun s' hs' => ?_
      have := Leaves.foldlM_visited hf l hs'
      rwa [List.append_assoc] at this

/-- What one iteration keeps, the loop keeps if it ends. -/
theorem Leaves.foldlM {γ : Type v} {f : β → γ → Except Panic β} {P : β → Prop}
    (hf : ∀ s a, P s → Leaves (f s a) P) : ∀ (l : List γ) {s : β}, P s → Leaves (l.foldlM f s) P
  | [], _, hs => leaves_pure hs
  | a :: l, s, hs => (hf s a hs).bind fun _ hs' => Leaves.foldlM hf l hs'

end Panic
