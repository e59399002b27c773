import Mathlib.Data.List.Forall2
import Mathlib.Data.List.Perm.Basic

/-!
# Folds in any order

Folding a list into a state may depend on its order in ways that do not matter. `R`
says which states are the same for the purpose at hand. When steps respect `R` and
independent steps commute up to it, independent steps may be taken in any order; and
a step may be replaced by one that does the same.
-/

namespace Reorder

variable {σ α : Type} {R : σ → σ → Prop} {f : σ → α → σ} {l l' : List α} {s s' : σ}

/-- Steps that do the same, on states that are the same. -/
theorem foldl_forall₂ {E : α → α → Prop}
    (hf : ∀ {a b s s'}, E a b → R s s' → R (f s a) (f s' b)) (hl : List.Forall₂ E l l')
    (hs : R s s') : R (l.foldl f s) (l'.foldl f s') := by
  induction hl generalizing s s' with
  | nil => exact hs
  | cons hab _ ih => exact ih (hf hab hs)

theorem foldl_congr (hf : ∀ {a s s'}, a ∈ l → R s s' → R (f s a) (f s' a)) (hs : R s s') :
    R (l.foldl f s) (l.foldl f s') := by
  induction l generalizing s s' with
  | nil => exact hs
  | cons a l ih =>
    exact ih (fun ha => hf (List.mem_cons_of_mem _ ha)) (hf List.mem_cons_self hs)

/-- **Independent steps may be taken in any order.** -/
theorem foldl_perm {Apart : α → α → Prop} (hsymm : ∀ {a b}, Apart a b → Apart b a)
    (hR : Equivalence R) {P : α → Prop} (hf : ∀ {a s s'}, P a → R s s' → R (f s a) (f s' a))
    (hcomm : ∀ {a b s}, P a → P b → Apart a b → R (f (f s a) b) (f (f s b) a))
    (hp : l.Perm l') (hP : ∀ a ∈ l, P a) (hl : l.Pairwise Apart) :
    R (l.foldl f s) (l'.foldl f s) := by
  induction hp generalizing s with
  | nil => exact hR.refl _
  | cons a _ ih => exact ih (fun b hb => hP b (List.mem_cons_of_mem _ hb)) hl.of_cons
  | swap a b l =>
    have hba : Apart b a := (List.pairwise_cons.mp hl).1 a List.mem_cons_self
    refine foldl_congr (fun hc => hf (hP _ (List.mem_cons_of_mem _ (List.mem_cons_of_mem _ hc)))) ?_
    exact hcomm (hP b List.mem_cons_self) (hP a (List.mem_cons_of_mem _ List.mem_cons_self)) hba
  | trans h₁ _ ih₁ ih₂ =>
    exact hR.trans (ih₁ hP hl) (ih₂ (fun a ha => hP a (h₁.mem_iff.mpr ha))
      (h₁.pairwise hl hsymm))

/-- Related choices are related in any way that follows from what they are. -/
theorem rel_imp {β : Type} {E E' : β → β → Prop} {x y : Option β} (h : Option.Rel E x y)
    (hE : ∀ a b, x = some a → E a b → E' a b) : Option.Rel E' x y := by
  cases h with
  | none => exact Option.Rel.none
  | some hab => exact Option.Rel.some (hE _ _ rfl hab)

/-- What is picked for related choices is related. -/
theorem forall₂_filterMap {β : Type} {E : β → β → Prop} {g g' : α → Option β} :
    ∀ {l : List α}, (∀ a ∈ l, Option.Rel E (g a) (g' a)) →
      List.Forall₂ E (l.filterMap g) (l.filterMap g')
  | [], _ => List.Forall₂.nil
  | a :: l, h => by
    have hrest := forall₂_filterMap fun b hb => h b (List.mem_cons_of_mem a hb)
    have ha := h a List.mem_cons_self
    rw [List.filterMap_cons, List.filterMap_cons]
    cases hg : g a with
    | none =>
      cases hg' : g' a with
      | none => exact hrest
      | some y =>
        rw [hg, hg'] at ha
        exact nomatch ha
    | some x =>
      cases hg' : g' a with
      | none =>
        rw [hg, hg'] at ha
        exact nomatch ha
      | some y =>
        rw [hg, hg'] at ha
        cases ha with
        | some hxy => exact List.Forall₂.cons hxy hrest

/-- Lists with the same names are related when what has the same name is. -/
theorem forall₂_of_map_eq {β : Type} {name : α → β} {E : α → α → Prop} : ∀ {l l' : List α},
    l.map name = l'.map name → (∀ a ∈ l, ∀ b ∈ l', name a = name b → E a b) → List.Forall₂ E l l'
  | [], [], _, _ => List.Forall₂.nil
  | [], _ :: _, h, _ => absurd h nofun
  | _ :: _, [], h, _ => absurd h nofun
  | a :: l, b :: l', h, hE => by
    rw [List.map_cons, List.map_cons, List.cons.injEq] at h
    exact List.Forall₂.cons (hE a List.mem_cons_self b List.mem_cons_self h.1)
      (forall₂_of_map_eq h.2 fun a ha b hb => hE a (List.mem_cons_of_mem _ ha) b
        (List.mem_cons_of_mem _ hb))

/-- Related elements are related at their places too. -/
theorem forall₂_zipIdx {E : α → α → Prop} (h : List.Forall₂ E l l') (k : Nat) :
    List.Forall₂ (fun a b : α × Nat => E a.1 b.1 ∧ a.2 = b.2) (l.zipIdx k) (l'.zipIdx k) := by
  induction h generalizing k with
  | nil => exact List.Forall₂.nil
  | cons hab _ ih => exact List.Forall₂.cons ⟨hab, rfl⟩ (ih (k + 1))

end Reorder
