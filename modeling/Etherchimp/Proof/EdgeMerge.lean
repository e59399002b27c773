import Etherchimp.Graph.Merge

/-!
# What a merge does to the edges

`mergeEdges` edits the edge map while it walks over it, then deletes and adds.
`mergeEdges_between` reads all of that off in one equation: between two nodes the
merge leaves the edge that was there, taken together with the old node's edge when
one of the two is the new node, and nothing at the old node.

The walk is followed through `LoopInv`, which says where every edge is after the
keys in `done`. It needs two facts about the map and none about strings: a
re-keyed edge never lands on the key of an edge still to be moved, and no two
edges are re-keyed to one id. Both come from `canonKey_inj`.
-/

namespace Etherchimp

/-- Edges sit under their canonical id, between ids the separator can be told from. -/
def WellKeyed (edges : KeyedMap String Edge) : Prop :=
  ∀ k e, edges.lookup k = some e →
    getCanonicalEdgeID e.fromID e.toID = (k, e.fromID, e.toID) ∧ e.id = k
      ∧ SepFree e.fromID ∧ SepFree e.toID

/-- The edge between two nodes. -/
def between (edges : KeyedMap String Edge) (a b : String) : Option Edge :=
  edges.lookup (canonKey a b)

theorem between_comm (edges : KeyedMap String Edge) (a b : String) :
    between edges a b = between edges b a := by
  rw [between, between, canonKey_comm]

/-- The edge found between two nodes has them as its endpoints. -/
theorem WellKeyed.endpoints {edges : KeyedMap String Edge} (h : WellKeyed edges) {a b : String}
    (ha : SepFree a) (hb : SepFree b) {e : Edge} (he : between edges a b = some e) :
    (e.fromID = a ∧ e.toID = b) ∨ (e.fromID = b ∧ e.toID = a) := by
  obtain ⟨hc, -, hf, ht⟩ := h _ e he
  have hk : canonKey e.fromID e.toID = canonKey a b := by rw [canonKey, hc]
  exact canonKey_inj hf ht ha hb hk

/-- An edge sits between its endpoints. -/
theorem WellKeyed.between_ends {edges : KeyedMap String Edge} (h : WellKeyed edges) {k : String}
    {e : Edge} (he : edges.lookup k = some e) :
    k = canonKey e.fromID e.toID ∧ between edges e.fromID e.toID = some e := by
  obtain ⟨hc, -, -, -⟩ := h k e he
  have hk : canonKey e.fromID e.toID = k := by rw [canonKey, hc]
  exact ⟨hk.symm, by rw [between, hk]; exact he⟩

section Loop

variable (newID oldID : String)

/-- The edge is at the old node. -/
def Incident (e : Edge) : Prop := e.fromID = oldID ∨ e.toID = oldID

instance (e : Edge) : Decidable (Incident oldID e) := inferInstanceAs (Decidable (_ ∨ _))

/-- The canonical id and endpoints the edge gets. -/
def target (e : Edge) : String × String × String :=
  getCanonicalEdgeID (repoint newID oldID e.fromID) (repoint newID oldID e.toID)

/-- The edge is at the old node and no self-loop afterwards. -/
def Rekeys (e : Edge) : Prop :=
  Incident oldID e ∧ repoint newID oldID e.fromID ≠ repoint newID oldID e.toID

instance (e : Edge) : Decidable (Rekeys newID oldID e) := inferInstanceAs (Decidable (_ ∧ _))

/-- The edge under its new id. -/
def rekeyed (e : Edge) : Edge :=
  { e with
    id := (target newID oldID e).1
    fromID := (target newID oldID e).2.1
    toID := (target newID oldID e).2.2 }

/-- Re-keyed edges land beside the edges still to be moved, each on an id of its own. -/
structure Disjoint (E : KeyedMap String Edge) : Prop where
  fresh : ∀ k e, E.lookup k = some e → Rekeys newID oldID e →
    ∀ e', E.lookup (target newID oldID e).1 = some e' → ¬ Incident oldID e'
  inj : ∀ k e k' e', E.lookup k = some e → E.lookup k' = some e' → Rekeys newID oldID e →
    Rekeys newID oldID e' → (target newID oldID e).1 = (target newID oldID e').1 → k = k'

/-- Where every edge is after the keys in `done`. -/
structure LoopInv (E : KeyedMap String Edge) (done : List String) (s : EdgeLoop) : Prop where
  absent : ∀ k, E.lookup k = none → s.edges.lookup k = none
  waiting : ∀ k e, E.lookup k = some e → Incident oldID e → k ∉ done → s.edges.lookup k = some e
  moved : ∀ k e, E.lookup k = some e → Rekeys newID oldID e → k ∈ done →
    E.lookup (target newID oldID e).1 = none → s.edges.lookup k = some (rekeyed newID oldID e)
  kept : ∀ k e, E.lookup k = some e → ¬ Incident oldID e →
    (∀ k' e', k' ∈ done → E.lookup k' = some e' → Rekeys newID oldID e' →
      (target newID oldID e').1 ≠ k) →
    s.edges.lookup k = some e
  absorbed : ∀ k e k' e', E.lookup k = some e → ¬ Incident oldID e → k' ∈ done →
    E.lookup k' = some e' → Rekeys newID oldID e' → (target newID oldID e').1 = k →
    s.edges.lookup k = some (absorbEdge e e')
  deleted : ∀ k, k ∈ s.edgesToDelete ↔ k ∈ done ∧ ∃ e, E.lookup k = some e ∧ Incident oldID e
  added : ∀ nk k, s.edgesToAdd.lookup nk = some k ↔
    k ∈ done ∧ ∃ e, E.lookup k = some e ∧ Rekeys newID oldID e ∧ (target newID oldID e).1 = nk
      ∧ E.lookup nk = none

variable {newID oldID} {E : KeyedMap String Edge} {done : List String} {s : EdgeLoop} {k : String}
  {e : Edge}

theorem loopInv_init (idx : KeyedMap String (KeyedMap String Bool)) :
    LoopInv newID oldID E [] ⟨E, idx, [], ∅⟩ where
  absent _ h := h
  waiting _ _ h _ _ := h
  moved _ _ _ _ h := absurd h List.not_mem_nil
  kept _ _ h _ _ := h
  absorbed _ _ _ _ _ _ h := absurd h List.not_mem_nil
  deleted k := by simp
  added nk k := by simp

/-- What the walk finds under the key of an edge that is not at the old node. -/
theorem LoopInv.found (h : LoopInv newID oldID E done s) (he : E.lookup k = some e)
    (hn : ¬ Incident oldID e) :
    ∃ e', s.edges.lookup k = some e' ∧ e'.fromID = e.fromID ∧ e'.toID = e.toID := by
  by_cases hp : ∃ k' e', k' ∈ done ∧ E.lookup k' = some e' ∧ Rekeys newID oldID e'
      ∧ (target newID oldID e').1 = k
  · obtain ⟨k', e', hk', he', hr, ht⟩ := hp
    exact ⟨_, h.absorbed k e k' e' he hn hk' he' hr ht, rfl, rfl⟩
  · refine ⟨e, h.kept k e he hn fun k' e' hk' he' hr ht => hp ?_, rfl, rfl⟩
    exact ⟨k', e', hk', he', hr, ht⟩

/-- What one key of the walk does. -/
theorem rekeyEdge_cases (hd : Disjoint newID oldID E) (h : LoopInv newID oldID E done s)
    (hk : k ∉ done) (he : E.lookup k = some e) :
    (¬ Incident oldID e ∧ rekeyEdge newID oldID s k = s)
      ∨ (Incident oldID e ∧ (rekeyEdge newID oldID s k).edgesToDelete = s.edgesToDelete ++ [k]
        ∧ ((¬ Rekeys newID oldID e ∧ (rekeyEdge newID oldID s k).edges = s.edges
              ∧ (rekeyEdge newID oldID s k).edgesToAdd = s.edgesToAdd)
          ∨ (∃ e', Rekeys newID oldID e ∧ E.lookup (target newID oldID e).1 = some e'
              ∧ (rekeyEdge newID oldID s k).edges
                  = s.edges.insert (target newID oldID e).1 (absorbEdge e' e)
              ∧ (rekeyEdge newID oldID s k).edgesToAdd = s.edgesToAdd)
          ∨ (Rekeys newID oldID e ∧ E.lookup (target newID oldID e).1 = none
              ∧ (rekeyEdge newID oldID s k).edges = s.edges.insert k (rekeyed newID oldID e)
              ∧ (rekeyEdge newID oldID s k).edgesToAdd
                  = s.edgesToAdd.insert (target newID oldID e).1 k))) := by
  by_cases hi : Incident oldID e
  case neg =>
    refine Or.inl ⟨hi, ?_⟩
    obtain ⟨e', hl, hf, ht⟩ := h.found he hi
    unfold rekeyEdge
    rw [hl]
    dsimp only
    rw [hf, ht, if_pos (not_or.mp hi)]
  case pos =>
    refine Or.inr ⟨hi, ?_⟩
    have hl := h.waiting k e he hi hk
    have hguard : ¬ (e.fromID ≠ oldID ∧ e.toID ≠ oldID) := by
      rintro ⟨h1, h2⟩
      exact hi.elim h1 h2
    unfold rekeyEdge
    rw [hl]
    dsimp only
    rw [if_neg hguard]
    by_cases hr : repoint newID oldID e.fromID = repoint newID oldID e.toID
    · rw [if_pos hr]
      exact ⟨rfl, Or.inl ⟨fun h => h.2 hr, rfl, rfl⟩⟩
    · have hrk : Rekeys newID oldID e := ⟨hi, hr⟩
      have hne : (target newID oldID e).1 ≠ k := by
        intro heq
        exact hd.fresh k e he hrk e (by rw [heq]; exact he) hi
      rw [if_neg hr, show getCanonicalEdgeID (repoint newID oldID e.fromID) (repoint newID oldID e.toID)
        = target newID oldID e from rfl, if_neg hne]
      cases ht : E.lookup (target newID oldID e).1 with
      | some e' =>
        -- nothing was folded into that edge yet, since only this key leads to it
        have hs : s.edges.lookup (target newID oldID e).1 = some e' := by
          refine h.kept _ e' ht (hd.fresh k e he hrk e' ht) fun k' e'' hk' he'' hr'' heq => ?_
          exact hk (hd.inj k' e'' k e he'' he hr'' hrk heq ▸ hk')
        rw [hs]
        exact ⟨rfl, Or.inr (Or.inl ⟨e', hrk, rfl, rfl, rfl⟩)⟩
      | none =>
        have hadd : s.edgesToAdd.lookup (target newID oldID e).1 = none := by
          rw [Option.eq_none_iff_forall_ne_some]
          intro k' hk'
          obtain ⟨hk', e'', he'', hr'', heq, -⟩ := (h.added _ k').mp hk'
          exact hk (hd.inj k' e'' k e he'' he hr'' hrk heq ▸ hk')
        rw [h.absent _ ht]
        dsimp only
        rw [hadd]
        exact ⟨rfl, Or.inr (Or.inr ⟨hrk, rfl, rfl, rfl⟩)⟩

private theorem mem_concat {a k : String} : a ∈ done ++ [k] ↔ a ∈ done ∨ a = k := by
  rw [List.mem_append, List.mem_singleton]

private theorem deleted_concat (hi : Incident oldID e) (he : E.lookup k = some e)
    {del : List String} (h : ∀ k', k' ∈ del ↔ k' ∈ done ∧ ∃ e, E.lookup k' = some e ∧ Incident oldID e)
    (k' : String) :
    k' ∈ del ++ [k] ↔ k' ∈ done ++ [k] ∧ ∃ e, E.lookup k' = some e ∧ Incident oldID e := by
  rw [mem_concat, mem_concat, h]
  constructor
  · rintro (⟨h1, h2⟩ | rfl)
    · exact ⟨Or.inl h1, h2⟩
    · exact ⟨Or.inr rfl, e, he, hi⟩
  · rintro ⟨h1 | rfl, h2⟩
    · exact Or.inl ⟨h1, h2⟩
    · exact Or.inr rfl

/-- The step lemma of the walk. -/
theorem loopInv_step (hd : Disjoint newID oldID E) (h : LoopInv newID oldID E done s)
    (hk : k ∉ done) (he : E.lookup k = some e) :
    LoopInv newID oldID E (done ++ [k]) (rekeyEdge newID oldID s k) := by
  rcases rekeyEdge_cases hd h hk he with ⟨hi, hs⟩ | ⟨hi, hdel, ⟨hr, hed, hadd⟩
    | ⟨e', hr, ht, hed, hadd⟩ | ⟨hr, ht, hed, hadd⟩⟩
  · -- an edge elsewhere: only `done` grows, and no statement is about a key like this one
    have hother : ∀ k' e', k' ∈ done ++ [k] → E.lookup k' = some e' → Incident oldID e' →
        k' ∈ done := by
      intro k' e' hm he' hi'
      rcases mem_concat.mp hm with hm | rfl
      · exact hm
      · rw [he, Option.some.injEq] at he'
        exact absurd (he' ▸ hi') hi
    rw [hs]
    refine ⟨h.absent, ?_, ?_, ?_, ?_, ?_, ?_⟩
    · exact fun k' e' he' hi' hn => h.waiting k' e' he' hi' fun hm => hn (mem_concat.mpr (Or.inl hm))
    · exact fun k' e' he' hr' hm => h.moved k' e' he' hr' (hother k' e' hm he' hr'.1)
    · exact fun k' e' he' hi' hp => h.kept k' e' he' hi' fun k'' e'' hm =>
        hp k'' e'' (mem_concat.mpr (Or.inl hm))
    · exact fun k' e' k'' e'' he' hi' hm he'' hr'' => h.absorbed k' e' k'' e'' he' hi'
        (hother k'' e'' hm he'' hr''.1) he'' hr''
    · intro k'
      rw [h.deleted]
      exact ⟨fun ⟨hm, hex⟩ => ⟨mem_concat.mpr (Or.inl hm), hex⟩,
        fun ⟨hm, e', he', hi'⟩ => ⟨hother k' e' hm he' hi', e', he', hi'⟩⟩
    · intro nk k'
      rw [h.added]
      exact ⟨fun ⟨hm, hex⟩ => ⟨mem_concat.mpr (Or.inl hm), hex⟩,
        fun ⟨hm, e', he', hr', hex⟩ => ⟨hother k' e' hm he' hr'.1, e', he', hr', hex⟩⟩
  · -- a self-loop in the making: deleted, and nothing else
    have hother : ∀ k' e', k' ∈ done ++ [k] → E.lookup k' = some e' → Rekeys newID oldID e' →
        k' ∈ done := by
      intro k' e' hm he' hr'
      rcases mem_concat.mp hm with hm | rfl
      · exact hm
      · rw [he, Option.some.injEq] at he'
        exact absurd (he' ▸ hr') hr
    refine ⟨?_, ?_, ?_, ?_, ?_, ?_, ?_⟩
    · rw [hed]; exact h.absent
    · rw [hed]
      exact fun k' e' he' hi' hn => h.waiting k' e' he' hi' fun hm => hn (mem_concat.mpr (Or.inl hm))
    · rw [hed]
      exact fun k' e' he' hr' hm => h.moved k' e' he' hr' (hother k' e' hm he' hr')
    · rw [hed]
      exact fun k' e' he' hi' hp => h.kept k' e' he' hi' fun k'' e'' hm =>
        hp k'' e'' (mem_concat.mpr (Or.inl hm))
    · rw [hed]
      exact fun k' e' k'' e'' he' hi' hm he'' hr'' => h.absorbed k' e' k'' e'' he' hi'
        (hother k'' e'' hm he'' hr'') he'' hr''
    · rw [hdel]; exact deleted_concat hi he h.deleted
    · intro nk k'
      rw [hadd, h.added]
      exact ⟨fun ⟨hm, hex⟩ => ⟨mem_concat.mpr (Or.inl hm), hex⟩,
        fun ⟨hm, e', he', hr', hex⟩ => ⟨hother k' e' hm he' hr', e', he', hr', hex⟩⟩
  · -- folded into the edge that has the new id already
    have htn := hd.fresh k e he hr e' ht
    have hne : ∀ {k' e₁}, E.lookup k' = some e₁ → Incident oldID e₁ →
        k' ≠ (target newID oldID e).1 := by
      intro k' e₁ he₁ hi₁ heq
      rw [heq, ht, Option.some.injEq] at he₁
      exact htn (he₁ ▸ hi₁)
    refine ⟨?_, ?_, ?_, ?_, ?_, ?_, ?_⟩
    · intro k' hn
      rw [hed, AList.lookup_insert_ne]
      · exact h.absent k' hn
      · rintro rfl; rw [ht] at hn; cases hn
    · intro k' e₁ he₁ hi₁ hn
      rw [hed, AList.lookup_insert_ne (hne he₁ hi₁)]
      exact h.waiting k' e₁ he₁ hi₁ fun hm => hn (mem_concat.mpr (Or.inl hm))
    · intro k' e₁ he₁ hr₁ hm hnone
      rw [hed, AList.lookup_insert_ne (hne he₁ hr₁.1)]
      rcases mem_concat.mp hm with hm | rfl
      · exact h.moved k' e₁ he₁ hr₁ hm hnone
      · rw [he, Option.some.injEq] at he₁
        rw [← he₁, ht] at hnone; cases hnone
    · intro k' e₁ he₁ hi₁ hp
      rw [hed, AList.lookup_insert_ne]
      · exact h.kept k' e₁ he₁ hi₁ fun k'' e'' hm => hp k'' e'' (mem_concat.mpr (Or.inl hm))
      · exact fun heq => hp k e (mem_concat.mpr (Or.inr rfl)) he hr heq.symm
    · intro k' e₁ k'' e₂ he₁ hi₁ hm he₂ hr₂ ht₂
      rw [hed, KeyedMap.lookup_insert_eq]
      split
      · rename_i heq
        have hkk : k'' = k := hd.inj k'' e₂ k e he₂ he hr₂ hr (ht₂.trans heq)
        subst hkk
        rw [heq, ht, Option.some.injEq] at he₁
        rw [he, Option.some.injEq] at he₂
        rw [he₁, he₂]
      · rename_i hkne
        refine h.absorbed k' e₁ k'' e₂ he₁ hi₁ ?_ he₂ hr₂ ht₂
        rcases mem_concat.mp hm with hm | rfl
        · exact hm
        · rw [he, Option.some.injEq] at he₂
          exact absurd ht₂.symm (he₂ ▸ hkne)
    · rw [hdel]; exact deleted_concat hi he h.deleted
    · intro nk k'
      rw [hadd, h.added]
      constructor
      · exact fun ⟨hm, hex⟩ => ⟨mem_concat.mpr (Or.inl hm), hex⟩
      · rintro ⟨hm, e₁, he₁, hr₁, rfl, hnone⟩
        rcases mem_concat.mp hm with hm | rfl
        · exact ⟨hm, e₁, he₁, hr₁, rfl, hnone⟩
        · rw [he, Option.some.injEq] at he₁
          rw [← he₁, ht] at hnone; cases hnone
  · -- the first edge with this new id: re-keyed in place and remembered
    refine ⟨?_, ?_, ?_, ?_, ?_, ?_, ?_⟩
    · intro k' hn
      rw [hed, AList.lookup_insert_ne]
      · exact h.absent k' hn
      · rintro rfl; rw [he] at hn; cases hn
    · intro k' e₁ he₁ hi₁ hn
      rw [hed, AList.lookup_insert_ne fun heq => hn (mem_concat.mpr (Or.inr heq))]
      exact h.waiting k' e₁ he₁ hi₁ fun hm => hn (mem_concat.mpr (Or.inl hm))
    · intro k' e₁ he₁ hr₁ hm hnone
      rw [hed, KeyedMap.lookup_insert_eq]
      split
      · rename_i heq
        rw [heq, he, Option.some.injEq] at he₁
        rw [he₁]
      · rename_i hkne
        exact h.moved k' e₁ he₁ hr₁ ((mem_concat.mp hm).resolve_right hkne) hnone
    · intro k' e₁ he₁ hi₁ hp
      rw [hed, AList.lookup_insert_ne]
      · exact h.kept k' e₁ he₁ hi₁ fun k'' e'' hm => hp k'' e'' (mem_concat.mpr (Or.inl hm))
      · rintro rfl
        rw [he, Option.some.injEq] at he₁
        exact hi₁ (he₁ ▸ hi)
    · intro k' e₁ k'' e₂ he₁ hi₁ hm he₂ hr₂ ht₂
      rw [hed, AList.lookup_insert_ne]
      · refine h.absorbed k' e₁ k'' e₂ he₁ hi₁ ?_ he₂ hr₂ ht₂
        rcases mem_concat.mp hm with hm | rfl
        · exact hm
        · rw [he, Option.some.injEq] at he₂
          rw [← ht₂, ← he₂, ht] at he₁; cases he₁
      · rintro rfl
        rw [he, Option.some.injEq] at he₁
        exact hi₁ (he₁ ▸ hi)
    · rw [hdel]; exact deleted_concat hi he h.deleted
    · intro nk k'
      rw [hadd, KeyedMap.lookup_insert_eq]
      split
      · rename_i heq
        constructor
        · intro hkk
          cases hkk
          exact ⟨mem_concat.mpr (Or.inr rfl), e, he, hr, heq.symm, heq ▸ ht⟩
        · rintro ⟨-, e₁, he₁, hr₁, heq₁, -⟩
          rw [hd.inj k' e₁ k e he₁ he hr₁ hr (heq₁.trans heq)]
      · rename_i hkne
        rw [h.added]
        constructor
        · exact fun ⟨hm, hex⟩ => ⟨mem_concat.mpr (Or.inl hm), hex⟩
        · rintro ⟨hm, e₁, he₁, hr₁, heq₁, hnone⟩
          rcases mem_concat.mp hm with hm | rfl
          · exact ⟨hm, e₁, he₁, hr₁, heq₁, hnone⟩
          · rw [he, Option.some.injEq] at he₁
            exact absurd heq₁.symm (he₁ ▸ hkne)

/-- The walk over all keys. -/
theorem loopInv_walk (hd : Disjoint newID oldID E) (idx : KeyedMap String (KeyedMap String Bool)) :
    LoopInv newID oldID E E.keys (E.keys.foldl (rekeyEdge newID oldID) ⟨E, idx, [], ∅⟩) := by
  have hwalk : ∀ l : List String, l.Nodup → (∀ k ∈ l, ∃ e, E.lookup k = some e) →
      LoopInv newID oldID E l (l.foldl (rekeyEdge newID oldID) ⟨E, idx, [], ∅⟩) := by
    intro l
    induction l using List.reverseRecOn with
    | nil => intro _ _; exact loopInv_init idx
    | append_singleton l k ih =>
      intro hnd hmem
      obtain ⟨e, he⟩ := hmem k (by simp)
      rw [List.nodup_append] at hnd
      have hk : k ∉ l := fun h => hnd.2.2 k h k (by simp) rfl
      rw [List.foldl_append]
      exact loopInv_step hd
        (ih hnd.1 fun k' hk' => hmem k' (List.mem_append_left _ hk')) hk he
  exact hwalk E.keys (AList.keys_nodup E) fun k hk => (KeyedMap.mem_keys_iff E k).mp hk

/-- The additions of the last loop. -/
private theorem addRekeyed_lookup (loop : EdgeLoop) (nk : String) :
    ∀ (l : List (Sigma fun _ : String => String)) (s : EdgeLoop), l.NodupKeys →
      (l.foldl (addRekeyed loop) s).edges.lookup nk
        = ((l.dlookup nk).bind fun key => loop.edges.lookup key).or (s.edges.lookup nk) := by
  intro l
  induction l with
  | nil => intro s _; rfl
  | cons x l ih =>
    intro s hnd
    obtain ⟨a, key⟩ := x
    rw [List.nodupKeys_cons] at hnd
    rw [List.foldl_cons, ih _ hnd.2]
    have hstep : (addRekeyed loop s ⟨a, key⟩).edges.lookup nk
        = if nk = a then (loop.edges.lookup key).or (s.edges.lookup nk)
          else s.edges.lookup nk := by
      unfold addRekeyed
      dsimp only
      cases hl : loop.edges.lookup key with
      | none => simp
      | some edge => rw [KeyedMap.lookup_insert_eq]; rfl
    rw [hstep]
    by_cases hnk : nk = a
    · subst hnk
      rw [if_pos rfl, List.dlookup_cons_eq, List.dlookup_eq_none.mpr hnd.1]
      rfl
    · rw [if_neg hnk, List.dlookup_cons_ne _ _ hnk]

/-- The edge under a key after the merge, by what was there and what is re-keyed to it. -/
theorem mergeEdges_lookup (hd : Disjoint newID oldID E)
    (idx : KeyedMap String (KeyedMap String Bool)) (k : String) :
    (∀ e, E.lookup k = some e → Incident oldID e →
        (mergeEdges newID oldID E idx).edges.lookup k = none)
      ∧ (∀ e k' e', E.lookup k = some e → ¬ Incident oldID e → E.lookup k' = some e' →
          Rekeys newID oldID e' → (target newID oldID e').1 = k →
          (mergeEdges newID oldID E idx).edges.lookup k = some (absorbEdge e e'))
      ∧ (∀ e, E.lookup k = some e → ¬ Incident oldID e →
          (∀ k' e', E.lookup k' = some e' → Rekeys newID oldID e' →
            (target newID oldID e').1 ≠ k) →
          (mergeEdges newID oldID E idx).edges.lookup k = some e)
      ∧ (∀ k' e', E.lookup k = none → E.lookup k' = some e' → Rekeys newID oldID e' →
          (target newID oldID e').1 = k →
          (mergeEdges newID oldID E idx).edges.lookup k = some (rekeyed newID oldID e'))
      ∧ (E.lookup k = none →
          (∀ k' e', E.lookup k' = some e' → Rekeys newID oldID e' →
            (target newID oldID e').1 ≠ k) →
          (mergeEdges newID oldID E idx).edges.lookup k = none) := by
  have h := loopInv_walk hd idx
  unfold mergeEdges
  dsimp only
  generalize E.keys.foldl (rekeyEdge newID oldID) ⟨E, idx, [], ∅⟩ = s at h
  have hkeys : ∀ {k e}, E.lookup k = some e → k ∈ E.keys :=
    fun he => (KeyedMap.mem_keys_iff E _).mpr ⟨_, he⟩
  rw [addRekeyed_lookup s k _ _ s.edgesToAdd.nodupKeys]
  rw [show s.edgesToAdd.entries.dlookup k = s.edgesToAdd.lookup k from rfl,
    KeyedMap.lookup_eraseAll]
  -- an edge that is in the map is never under a key that is added
  have hnoadd : ∀ {e}, E.lookup k = some e → s.edgesToAdd.lookup k = none := by
    intro e he
    rw [Option.eq_none_iff_forall_ne_some]
    intro k' hk'
    obtain ⟨-, _, -, -, -, hn⟩ := (h.added k k').mp hk'
    rw [he] at hn; cases hn
  have hnodel : ∀ {e}, E.lookup k = some e → ¬ Incident oldID e → k ∉ s.edgesToDelete := by
    intro e he hi hm
    obtain ⟨-, e', he', hi'⟩ := (h.deleted k).mp hm
    rw [he, Option.some.injEq] at he'
    exact hi (he' ▸ hi')
  refine ⟨?_, ?_, ?_, ?_, ?_⟩
  · intro e he hi
    rw [hnoadd he, if_pos ((h.deleted k).mpr ⟨hkeys he, e, he, hi⟩)]
    rfl
  · intro e k' e' he hi he' hr' ht'
    rw [hnoadd he, if_neg (hnodel he hi),
      h.absorbed k e k' e' he hi (hkeys he') he' hr' ht']
    rfl
  · intro e he hi hp
    rw [hnoadd he, if_neg (hnodel he hi), h.kept k e he hi fun k' e' _ => hp k' e']
    rfl
  · intro k' e' hn he' hr' ht'
    rw [(h.added k k').mpr ⟨hkeys he', e', he', hr', ht', hn⟩, Option.bind_some,
      h.moved k' e' he' hr' (hkeys he') (ht' ▸ hn)]
    rfl
  · intro hn hp
    have hna : s.edgesToAdd.lookup k = none := by
      rw [Option.eq_none_iff_forall_ne_some]
      intro k' hk'
      obtain ⟨-, e', he', hr', ht', -⟩ := (h.added k k').mp hk'
      exact hp k' e' he' hr' ht'
    rw [hna, h.absent k hn, ite_self]
    rfl

/-- Where an edge of the merged map comes from. -/
theorem mergeEdges_some (hd : Disjoint newID oldID E)
    {idx : KeyedMap String (KeyedMap String Bool)} {k : String} {e : Edge}
    (hk : (mergeEdges newID oldID E idx).edges.lookup k = some e) :
    (E.lookup k = some e ∧ ¬ Incident oldID e)
      ∨ (∃ e₀ k' e', E.lookup k = some e₀ ∧ ¬ Incident oldID e₀ ∧ E.lookup k' = some e'
          ∧ e = absorbEdge e₀ e')
      ∨ ∃ k' e', E.lookup k' = some e' ∧ (target newID oldID e').1 = k
          ∧ e = rekeyed newID oldID e' := by
  obtain ⟨h1, h2, h3, h4, h5⟩ := mergeEdges_lookup hd idx k
  by_cases hp : ∃ k' e', E.lookup k' = some e' ∧ Rekeys newID oldID e'
      ∧ (target newID oldID e').1 = k
  · obtain ⟨k', e', he', hr, ht⟩ := hp
    cases hE : E.lookup k with
    | some e₀ =>
      have hi := hd.fresh k' e' he' hr e₀ (ht ▸ hE)
      rw [h2 e₀ k' e' hE hi he' hr ht, Option.some.injEq] at hk
      exact Or.inr (Or.inl ⟨e₀, k', e', rfl, hi, he', hk.symm⟩)
    | none =>
      rw [h4 k' e' hE he' hr ht, Option.some.injEq] at hk
      exact Or.inr (Or.inr ⟨k', e', he', ht, hk.symm⟩)
  · have hno : ∀ k' e', E.lookup k' = some e' → Rekeys newID oldID e' →
        (target newID oldID e').1 ≠ k :=
      fun k' e' he' hr ht => hp ⟨k', e', he', hr, ht⟩
    cases hE : E.lookup k with
    | none => rw [h5 hE hno] at hk; cases hk
    | some e₀ =>
      by_cases hi : Incident oldID e₀
      · rw [h1 e₀ hE hi] at hk; cases hk
      · rw [h3 e₀ hE hi hno, Option.some.injEq] at hk
        subst hk
        exact Or.inl ⟨rfl, hi⟩

end Loop

/-! ## Between two nodes -/

section Pairs

variable {newID oldID : String} {E : KeyedMap String Edge} {k a b : String} {e : Edge}

theorem repoint_sepFree (oldID : String) {id : String} (hnew : SepFree newID) (h : SepFree id) :
    SepFree (repoint newID oldID id) := by
  unfold repoint
  split
  · exact hnew
  · exact h

theorem repoint_ne (hne : oldID ≠ newID) (id : String) : repoint newID oldID id ≠ oldID := by
  unfold repoint
  split
  · exact hne.symm
  · assumption

/-- An edge that is re-keyed has the old node at one end and a third node at the other. -/
theorem Rekeys.ends (h : Rekeys newID oldID e) :
    ∃ x, x ≠ oldID ∧ x ≠ newID
      ∧ ((e.fromID = oldID ∧ e.toID = x) ∨ (e.fromID = x ∧ e.toID = oldID)) := by
  obtain ⟨hi, hr⟩ := h
  unfold repoint at hr
  rcases hi with hf | ht
  · rw [if_pos hf] at hr
    refine ⟨e.toID, fun h => ?_, fun h => ?_, Or.inl ⟨hf, rfl⟩⟩
    · rw [if_pos h] at hr; exact hr rfl
    · split at hr
      · exact hr rfl
      · exact hr h.symm
  · rw [if_pos ht] at hr
    refine ⟨e.fromID, fun h => ?_, fun h => ?_, Or.inr ⟨rfl, ht⟩⟩
    · rw [if_pos h] at hr; exact hr rfl
    · split at hr
      · exact hr rfl
      · exact hr h

/-- It lands between the new node and that third node. -/
theorem target_of_ends {x : String} (hx : x ≠ oldID)
    (h : (e.fromID = oldID ∧ e.toID = x) ∨ (e.fromID = x ∧ e.toID = oldID)) :
    target newID oldID e = getCanonicalEdgeID newID x := by
  unfold target repoint
  rcases h with ⟨hf, ht⟩ | ⟨hf, ht⟩
  · rw [hf, ht, if_pos rfl, if_neg hx]
  · rw [hf, ht, if_pos rfl, if_neg hx, getCanonicalEdgeID_comm]

/-- An edge between the old node and a third node is re-keyed. -/
theorem rekeys_of_ends {x : String} (hx : x ≠ oldID) (hxn : x ≠ newID)
    (h : (e.fromID = oldID ∧ e.toID = x) ∨ (e.fromID = x ∧ e.toID = oldID)) :
    Rekeys newID oldID e := by
  unfold Rekeys Incident repoint
  rcases h with ⟨hf, ht⟩ | ⟨hf, ht⟩
  · rw [hf, ht, if_pos rfl, if_neg hx]; exact ⟨Or.inl rfl, hxn.symm⟩
  · rw [hf, ht, if_pos rfl, if_neg hx]; exact ⟨Or.inr rfl, hxn⟩

theorem WellKeyed.disjoint (h : WellKeyed E) (hnew : SepFree newID) (hne : oldID ≠ newID) :
    Disjoint newID oldID E where
  fresh k e he hr e' he' hi := by
    obtain ⟨x, hxo, -, hends⟩ := hr.ends
    have hx : SepFree x := by
      obtain ⟨-, -, hf, ht⟩ := h k e he
      rcases hends with ⟨-, rfl⟩ | ⟨rfl, -⟩
      · exact ht
      · exact hf
    rw [target_of_ends hxo hends] at he'
    rcases h.endpoints hnew hx he' with ⟨hf, ht⟩ | ⟨hf, ht⟩ <;> rcases hi with hi | hi
    · exact hne (hi.symm.trans hf)
    · exact hxo (ht.symm.trans hi)
    · exact hxo (hf.symm.trans hi)
    · exact hne (hi.symm.trans ht)
  inj k e k' e' he he' hr hr' ht := by
    obtain ⟨x, hxo, hxn, hends⟩ := hr.ends
    obtain ⟨y, hyo, hyn, hends'⟩ := hr'.ends
    obtain ⟨-, -, hf, ht₁⟩ := h k e he
    obtain ⟨-, -, hf', ht'⟩ := h k' e' he'
    have hx : SepFree x := by rcases hends with ⟨-, rfl⟩ | ⟨rfl, -⟩ <;> assumption
    have hy : SepFree y := by rcases hends' with ⟨-, rfl⟩ | ⟨rfl, -⟩ <;> assumption
    rw [target_of_ends hxo hends, target_of_ends hyo hends'] at ht
    have hxy : x = y := by
      rcases canonKey_inj hnew hx hnew hy ht with ⟨-, hxy⟩ | ⟨hny, -⟩
      · exact hxy
      · exact absurd hny.symm hyn
    have hkey : ∀ {k e}, E.lookup k = some e →
        ((e.fromID = oldID ∧ e.toID = x) ∨ (e.fromID = x ∧ e.toID = oldID)) →
        k = canonKey oldID x := by
      intro k e he hends
      rw [(h.between_ends he).1]
      rcases hends with ⟨hf, ht⟩ | ⟨hf, ht⟩
      · rw [hf, ht]
      · rw [hf, ht, canonKey_comm]
    rw [hkey he hends, hkey he' (hxy ▸ hends')]

/-- What is re-keyed to the edge between two nodes is the old node's edge to the other one. -/
theorem WellKeyed.partner_iff (h : WellKeyed E) (hnew : SepFree newID) (ha : SepFree a)
    (hb : SepFree b) (hao : a ≠ oldID) (hbo : b ≠ oldID) (hold : SepFree oldID) (e' : Edge) :
    (∃ k', E.lookup k' = some e' ∧ Rekeys newID oldID e' ∧ (target newID oldID e').1 = canonKey a b)
      ↔ a ≠ b ∧ ((a = newID ∧ between E oldID b = some e')
          ∨ (b = newID ∧ between E oldID a = some e')) := by
  constructor
  · rintro ⟨k', he', hr, ht⟩
    obtain ⟨x, hxo, hxn, hends⟩ := hr.ends
    obtain ⟨-, -, hf', ht'⟩ := h k' e' he'
    have hx : SepFree x := by rcases hends with ⟨-, rfl⟩ | ⟨rfl, -⟩ <;> assumption
    have hbt : between E oldID x = some e' := by
      have := (h.between_ends he').2
      rcases hends with ⟨hf, ht⟩ | ⟨hf, ht⟩
      · rwa [hf, ht] at this
      · rwa [hf, ht, between_comm] at this
    rw [target_of_ends hxo hends] at ht
    rcases canonKey_inj hnew hx ha hb ht with ⟨rfl, rfl⟩ | ⟨rfl, rfl⟩
    · exact ⟨hxn.symm, Or.inl ⟨rfl, hbt⟩⟩
    · exact ⟨hxn, Or.inr ⟨rfl, hbt⟩⟩
  · rintro ⟨hab, ⟨rfl, hbt⟩ | ⟨rfl, hbt⟩⟩
    · have hends := h.endpoints hold hb hbt
      exact ⟨_, hbt, rekeys_of_ends hbo hab.symm hends,
        congrArg Prod.fst (target_of_ends hbo hends)⟩
    · have hends := h.endpoints hold ha hbt
      refine ⟨_, hbt, rekeys_of_ends hao hab hends, ?_⟩
      rw [target_of_ends hao hends, canonKey_comm]
      rfl

/-- What the new node's edge and the old node's edge to the same node become. -/
def joinEdges (newID oldID : String) : Option Edge → Option Edge → Option Edge
  | some e, some e' => some (absorbEdge e e')
  | some e, none => some e
  | none, some e' => some (rekeyed newID oldID e')
  | none, none => none

/-- **The edge between two nodes after a merge.** -/
theorem mergeEdges_between (h : WellKeyed E) (hnew : SepFree newID) (hold : SepFree oldID)
    (hne : oldID ≠ newID) (idx : KeyedMap String (KeyedMap String Bool)) (ha : SepFree a)
    (hb : SepFree b) :
    between (mergeEdges newID oldID E idx).edges a b
      = if a = oldID ∨ b = oldID then none
        else if a = b then between E a b
        else if a = newID then joinEdges newID oldID (between E a b) (between E oldID b)
        else if b = newID then joinEdges newID oldID (between E a b) (between E oldID a)
        else between E a b := by
  obtain ⟨h1, h2, h3, h4, h5⟩ :=
    mergeEdges_lookup (h.disjoint hnew hne) idx (canonKey a b)
  show (mergeEdges newID oldID E idx).edges.lookup (canonKey a b) = _
  by_cases ho : a = oldID ∨ b = oldID
  · rw [if_pos ho]
    cases he : E.lookup (canonKey a b) with
    | some e =>
      refine h1 e he ?_
      rcases h.endpoints ha hb he with ⟨hf, ht⟩ | ⟨hf, ht⟩ <;> rcases ho with ho | ho
      · exact Or.inl (hf.trans ho)
      · exact Or.inr (ht.trans ho)
      · exact Or.inr (ht.trans ho)
      · exact Or.inl (hf.trans ho)
    | none =>
      -- nothing is re-keyed to the old node
      refine h5 he fun k' e' he' hr ht => ?_
      obtain ⟨x, hxo, -, hends⟩ := hr.ends
      obtain ⟨-, -, hf', ht'⟩ := h k' e' he'
      have hx : SepFree x := by rcases hends with ⟨-, rfl⟩ | ⟨rfl, -⟩ <;> assumption
      rw [target_of_ends hxo hends] at ht
      rcases canonKey_inj hnew hx ha hb ht with ⟨rfl, rfl⟩ | ⟨rfl, rfl⟩
      · exact ho.elim hne.symm hxo
      · exact ho.elim hxo hne.symm
  · rw [if_neg ho]
    obtain ⟨hao, hbo⟩ := not_or.mp ho
    have hp := fun e' => h.partner_iff hnew ha hb hao hbo hold e'
    have hinc : ∀ {e}, E.lookup (canonKey a b) = some e → ¬ Incident oldID e := by
      intro e he hi
      rcases h.endpoints ha hb he with ⟨hf, ht⟩ | ⟨hf, ht⟩ <;> rcases hi with hi | hi
      · exact hao (hf.symm.trans hi)
      · exact hbo (ht.symm.trans hi)
      · exact hbo (hf.symm.trans hi)
      · exact hao (ht.symm.trans hi)
    -- with no partner the edge stays, with one it is joined
    have halone : (∀ e', ¬ ∃ k', E.lookup k' = some e' ∧ Rekeys newID oldID e'
        ∧ (target newID oldID e').1 = canonKey a b) →
        (mergeEdges newID oldID E idx).edges.lookup (canonKey a b) = between E a b := by
      intro hno
      have hno' : ∀ k' e', E.lookup k' = some e' → Rekeys newID oldID e' →
          (target newID oldID e').1 ≠ canonKey a b :=
        fun k' e' he' hr ht => hno e' ⟨k', he', hr, ht⟩
      unfold between
      cases he : E.lookup (canonKey a b) with
      | some e => exact h3 e he (hinc he) hno'
      | none => exact h5 he hno'
    have hjoin : ∀ x : Option Edge, (∀ e', x = some e' ↔ ∃ k', E.lookup k' = some e'
        ∧ Rekeys newID oldID e' ∧ (target newID oldID e').1 = canonKey a b) →
        (mergeEdges newID oldID E idx).edges.lookup (canonKey a b)
          = joinEdges newID oldID (between E a b) x := by
      intro x hx
      cases x with
      | none =>
        rw [halone fun e' hex => by cases (hx e').mpr hex]
        cases between E a b <;> rfl
      | some e' =>
        obtain ⟨k', he', hr, ht⟩ := (hx e').mp rfl
        unfold between
        cases he : E.lookup (canonKey a b) with
        | some e => exact h2 e k' e' he (hinc he) he' hr ht
        | none => exact h4 k' e' he he' hr ht
    by_cases hab : a = b
    · rw [if_pos hab]
      exact halone fun e' hex => ((hp e').mp hex).1 hab
    rw [if_neg hab]
    by_cases han : a = newID
    · rw [if_pos han]
      refine hjoin _ fun e' => ?_
      rw [hp]
      constructor
      · exact fun hbt => ⟨hab, Or.inl ⟨han, hbt⟩⟩
      · rintro ⟨-, ⟨-, hbt⟩ | ⟨hbn, -⟩⟩
        · exact hbt
        · exact absurd (han.trans hbn.symm) hab
    rw [if_neg han]
    by_cases hbn : b = newID
    · rw [if_pos hbn]
      refine hjoin _ fun e' => ?_
      rw [hp]
      constructor
      · exact fun hbt => ⟨hab, Or.inr ⟨hbn, hbt⟩⟩
      · rintro ⟨-, ⟨han', -⟩ | ⟨-, hbt⟩⟩
        · exact absurd han' han
        · exact hbt
    rw [if_neg hbn]
    refine halone fun e' hex => ?_
    rcases ((hp e').mp hex).2 with ⟨han', -⟩ | ⟨hbn', -⟩
    · exact han han'
    · exact hbn hbn'

/-- A merge keeps the edges under their canonical ids. -/
theorem WellKeyed.merge (h : WellKeyed E) (hnew : SepFree newID) (hne : oldID ≠ newID)
    (idx : KeyedMap String (KeyedMap String Bool)) :
    WellKeyed (mergeEdges newID oldID E idx).edges := by
  intro k e hk
  rcases mergeEdges_some (h.disjoint hnew hne) hk with ⟨hE, -⟩ | ⟨e₀, k', e', hE, -, -, rfl⟩
    | ⟨k', e', he', ht, rfl⟩
  · exact h k e hE
  · exact h k e₀ hE
  · obtain ⟨-, -, hf, ht'⟩ := h k' e' he'
    have hf₁ := repoint_sepFree oldID hnew hf
    have ht₁ := repoint_sepFree oldID hnew ht'
    obtain ⟨hfrom, hto⟩ : SepFree (target newID oldID e').2.1
        ∧ SepFree (target newID oldID e').2.2 := by
      unfold target
      rcases getCanonicalEdgeID_cases (repoint newID oldID e'.fromID)
        (repoint newID oldID e'.toID) with hc | hc <;> rw [hc]
      · exact ⟨hf₁, ht₁⟩
      · exact ⟨ht₁, hf₁⟩
    refine ⟨getCanonicalEdgeID_idem (a := repoint newID oldID e'.fromID)
      (b := repoint newID oldID e'.toID) ?_, ht, hfrom, hto⟩
    rw [← ht]
    rfl

end Pairs

end Etherchimp
