import Mathlib.Logic.Relation
import Etherchimp.Lib.KeyedMap

/-!
# Chains of parents

A map from keys to keys read as parent pointers. `Leads` follows them; a key without
a parent is a root. With a rank that grows along every pointer, chains are bounded,
and where no chain has three hops, pointing every key at its grandparent once makes
every chain one hop long, in whatever order the keys are visited.
-/

namespace Chains

variable {κ : Type} [DecidableEq κ]

/-- Following parents leads from one key to another. -/
def Leads (m : KeyedMap κ κ) : κ → κ → Prop := Relation.ReflTransGen fun a b => m.lookup a = some b

theorem Leads.refl (m : KeyedMap κ κ) (a : κ) : Leads m a a := Relation.ReflTransGen.refl

/-- More pointers keep every chain. -/
theorem Leads.mono {m m' : KeyedMap κ κ} (h : ∀ a b, m.lookup a = some b → m'.lookup a = some b)
    {a b : κ} (hab : Leads m a b) : Leads m' a b := Relation.ReflTransGen.mono h a b hab

theorem Leads.tail {m : KeyedMap κ κ} {a b c : κ} (hab : Leads m a b) (hbc : m.lookup b = some c) :
    Leads m a c := Relation.ReflTransGen.tail hab hbc

/-- Nothing but itself is reached from a root. -/
theorem Leads.eq_of_root {m : KeyedMap κ κ} {a b : κ} (h : Leads m a b) (ha : m.lookup a = none) :
    a = b := by
  cases Relation.ReflTransGen.cases_head h with
  | inl h => exact h
  | inr h =>
    obtain ⟨c, hc, -⟩ := h
    rw [ha] at hc
    exact absurd hc nofun

/-- Ranks grow along every pointer. -/
def Ranked (rank : κ → Nat) (m : KeyedMap κ κ) : Prop :=
  ∀ a b, m.lookup a = some b → rank a < rank b

/-- No chain has three hops. -/
def TwoHops (m : KeyedMap κ κ) : Prop :=
  ∀ a b c, m.lookup a = some b → m.lookup b = some c → m.lookup c = none

theorem Ranked.twoHops {rank : κ → Nat} {m : KeyedMap κ κ} (h : Ranked rank m)
    (hle : ∀ a, rank a ≤ 2) : TwoHops m := by
  intro a b c hab hbc
  cases hc : m.lookup c with
  | none => rfl
  | some d =>
    have h₁ := h a b hab
    have h₂ := h b c hbc
    have h₃ := h c d hc
    have := hle d
    omega

/-- Point one key at its grandparent, when it has one. -/
def shorten (m : KeyedMap κ κ) (e : Sigma fun _ : κ => κ) : KeyedMap κ κ :=
  match m.lookup e.2 with
  | some s2 => m.insert e.1 s2
  | none => m

/-- The parent of the parent, or the parent itself when that is a root. -/
def grandparent (m : KeyedMap κ κ) (a : κ) : Option κ :=
  (m.lookup a).map fun b => (m.lookup b).getD b

/-- Some keys are shortened, the others as they were. -/
theorem lookup_foldl_shorten {m : KeyedMap κ κ} (h2 : TwoHops m)
    {l : List (Sigma fun _ : κ => κ)} (hl : ∀ e ∈ l, m.lookup e.1 = some e.2) (a : κ) :
    (l.foldl shorten m).lookup a
      = if a ∈ l.map Sigma.fst then grandparent m a else m.lookup a := by
  induction l using List.reverseRecOn generalizing a with
  | nil => rfl
  | append_singleton l e ih =>
    have ih := ih fun e he => hl e (List.mem_append_left _ he)
    have he : m.lookup e.1 = some e.2 := hl e (List.mem_append_right _ (List.mem_singleton.mpr rfl))
    -- the parent of `e` reads as in the map at the start, shortened already or not
    have hparent : (l.foldl shorten m).lookup e.2 = m.lookup e.2 := by
      rw [ih]
      by_cases hdone : e.2 ∈ l.map Sigma.fst
      · rw [if_pos hdone]
        unfold grandparent
        cases hb : m.lookup e.2 with
        | none => rfl
        | some c => simp [h2 _ _ _ he hb]
      · rw [if_neg hdone]
    have hnew : grandparent m e.1 = some ((m.lookup e.2).getD e.2) := by
      unfold grandparent
      rw [he]
      rfl
    rw [List.foldl_concat, List.map_append, List.map_singleton]
    generalize l.foldl shorten m = m' at ih hparent ⊢
    unfold shorten
    rw [hparent]
    by_cases ha : a = e.1
    · rw [if_pos (List.mem_append_right _ (List.mem_singleton.mpr ha)), ha, hnew]
      cases hb : m.lookup e.2 with
      | some c =>
        simp only [Option.getD_some]
        exact AList.lookup_insert _
      | none =>
        simp only [Option.getD_none]
        rw [ih]
        by_cases hdone : e.1 ∈ l.map Sigma.fst
        · rw [if_pos hdone, hnew, hb]
          rfl
        · rw [if_neg hdone, he]
    · have hiff : a ∈ l.map Sigma.fst ++ [e.1] ↔ a ∈ l.map Sigma.fst := by
        simp [ha]
      simp only [hiff]
      rw [← ih a]
      cases m.lookup e.2 with
      | some c => exact AList.lookup_insert_ne ha
      | none => rfl

/-- **One pass makes every chain one hop.** -/
theorem lookup_shortened {m : KeyedMap κ κ} (h2 : TwoHops m)
    {l : List (Sigma fun _ : κ => κ)} (hl : l.Perm m.entries) (a : κ) :
    (l.foldl shorten m).lookup a = grandparent m a := by
  rw [lookup_foldl_shorten h2 fun e he => (KeyedMap.mem_entries_iff m _ _).mp (hl.mem_iff.mp he)]
  by_cases ha : a ∈ l.map Sigma.fst
  · rw [if_pos ha]
  · rw [if_neg ha]
    unfold grandparent
    cases hb : m.lookup a with
    | none => rfl
    | some b =>
      have he := hl.mem_iff.mpr ((KeyedMap.mem_entries_iff m a b).mpr hb)
      exact absurd (List.mem_map_of_mem he) ha

/-- The end of a chain of at most two hops. -/
theorem Leads.grandparent {m : KeyedMap κ κ} (h2 : TwoHops m) {a b : κ} (h : Leads m a b)
    (hb : m.lookup b = none) (hne : a ≠ b) : grandparent m a = some b := by
  unfold Chains.grandparent
  cases Relation.ReflTransGen.cases_head h with
  | inl h => exact absurd h hne
  | inr h =>
    obtain ⟨c, hc, hcb⟩ := h
    rw [hc]
    cases hd : m.lookup c with
    | none =>
      rw [Leads.eq_of_root hcb hd]
      simp [Leads.eq_of_root hcb hd ▸ hd]
    | some d =>
      cases Relation.ReflTransGen.cases_head hcb with
      | inl hcb =>
        rw [hcb, hb] at hd
        exact absurd hd nofun
      | inr hcb =>
        obtain ⟨d', hd', hdb⟩ := hcb
        have hroot := Leads.eq_of_root hdb (h2 a c d' hc hd')
        simp [hd', hroot]

end Chains
