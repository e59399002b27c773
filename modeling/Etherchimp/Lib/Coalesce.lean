import Mathlib.Data.Set.Basic

/-!
# Changes to a set, and dropping some of them

A change removes some elements and then adds others. A list of changes is known by
the last thing each element is told; `covers_iff` says when the last change of a list
does the work of the whole list, so that the ones before it may be dropped.
-/

universe u

variable {κ : Type u} [DecidableEq κ]

/-- Remove the removed, then add the listed. -/
structure Change (κ : Type u) where
  listed : List κ
  removed : List κ

namespace Change

def apply (s : Set κ) (c : Change κ) : Set κ := {k | k ∈ c.listed ∨ (k ∈ s ∧ k ∉ c.removed)}

/-- What a change tells an element: to be there, not to be there, or nothing. -/
def mention (c : Change κ) (k : κ) : Option Bool :=
  if k ∈ c.listed then some true else if k ∈ c.removed then some false else none

/-- The last thing an element is told. -/
def lastMention (cs : List (Change κ)) (k : κ) : Option Bool :=
  cs.foldl (fun told c => (c.mention k).or told) none

/-- Do what is told, or else stay. -/
def settle (told : Option Bool) (p : Prop) : Prop := told.elim p fun b => b = true

theorem mem_apply (s : Set κ) (c : Change κ) (k : κ) :
    k ∈ c.apply s ↔ settle (c.mention k) (k ∈ s) := by
  have happly : k ∈ c.apply s ↔ k ∈ c.listed ∨ (k ∈ s ∧ k ∉ c.removed) := Iff.rfl
  rw [happly]
  unfold mention settle
  by_cases hl : k ∈ c.listed
  · simp [hl]
  · by_cases hr : k ∈ c.removed <;> simp [hl, hr]

theorem settle_or (told told' : Option Bool) (p : Prop) :
    settle told (settle told' p) ↔ settle (told.or told') p := by
  cases told with
  | none => exact Iff.rfl
  | some b => exact Iff.rfl

/-- The mentions of a run of changes, one run after another. -/
theorem foldl_mention (cs : List (Change κ)) (k : κ) (told : Option Bool) :
    cs.foldl (fun told c => (c.mention k).or told) told = (lastMention cs k).or told := by
  unfold lastMention
  induction cs generalizing told with
  | nil => rfl
  | cons c cs ih =>
    rw [List.foldl_cons, List.foldl_cons, ih, ih ((c.mention k).or none), Option.or_none,
      Option.or_assoc]

theorem mem_foldl_apply (s : Set κ) (cs : List (Change κ)) (k : κ) :
    k ∈ cs.foldl apply s ↔ settle (lastMention cs k) (k ∈ s) := by
  induction cs generalizing s with
  | nil => exact Iff.rfl
  | cons c cs ih =>
    have hmention : lastMention (c :: cs) k = (lastMention cs k).or (c.mention k) := by
      unfold lastMention
      rw [List.foldl_cons, foldl_mention, Option.or_none]
      rfl
    rw [List.foldl_cons, ih, hmention, ← settle_or, mem_apply]

theorem mention_ne_none {c : Change κ} {k : κ} :
    c.mention k ≠ none ↔ k ∈ c.listed ++ c.removed := by
  unfold mention
  rw [List.mem_append]
  by_cases hl : k ∈ c.listed
  · simp [hl]
  · by_cases hr : k ∈ c.removed <;> simp [hl, hr]

theorem exists_of_lastMention {cs : List (Change κ)} {k : κ} (h : lastMention cs k ≠ none) :
    ∃ c ∈ cs, c.mention k ≠ none := by
  induction cs with
  | nil => exact absurd rfl h
  | cons c cs ih =>
    by_cases hc : c.mention k = none
    · have hrest : lastMention (c :: cs) k = lastMention cs k := by
        unfold lastMention
        rw [List.foldl_cons, hc]
        rfl
      obtain ⟨d, hd, hmention⟩ := ih (hrest ▸ h)
      exact ⟨d, List.mem_cons_of_mem _ hd, hmention⟩
    · exact ⟨c, List.mem_cons_self .., hc⟩

/-- Every element the change leaves alone is already as the dropped changes last told it. -/
def Covers (s : Set κ) (dropped : List (Change κ)) (c : Change κ) : Prop :=
  ∀ k, c.mention k = none → ∀ b, lastMention dropped k = some b → (b = true ↔ k ∈ s)

/-- A change that mentions all that the dropped ones do covers them. -/
theorem covers_of_mentioned {s : Set κ} {dropped : List (Change κ)} {c : Change κ}
    (h : ∀ d ∈ dropped, ∀ k ∈ d.listed ++ d.removed, k ∈ c.listed ++ c.removed) :
    Covers s dropped c := by
  intro k hk b hb
  obtain ⟨d, hd, hmention⟩ := exists_of_lastMention (hb ▸ Option.some_ne_none b)
  exact absurd hk (mention_ne_none.mpr (h d hd k (mention_ne_none.mp hmention)))

/-- **The changes before the last may be dropped exactly when the last covers them.** -/
theorem covers_iff (s : Set κ) (dropped : List (Change κ)) (c : Change κ) :
    c.apply s = c.apply (dropped.foldl apply s) ↔ Covers s dropped c := by
  rw [Set.ext_iff]
  refine forall_congr' fun k => ?_
  rw [mem_apply, mem_apply, mem_foldl_apply]
  cases hc : c.mention k with
  | some b => exact iff_of_true Iff.rfl nofun
  | none =>
    unfold settle
    cases hd : lastMention dropped k with
    | none => exact iff_of_true Iff.rfl fun _ _ hb => (by cases hb)
    | some b =>
      constructor
      · intro h _ b' hb'
        cases hb'
        exact h.symm
      · intro h
        exact (h rfl b rfl).symm

end Change
