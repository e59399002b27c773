import Etherchimp.Lib.SetIndex
import Etherchimp.Proof.Attribution
import Etherchimp.Proof.Linked

/-!
# The adjacency index

`edgesByNode` is kept up by hand wherever an edge appears, disappears or changes
its endpoints. `Indexed` says that it is the inverted index of the edge map: under
each node exactly the keys of its edges.

The delicate place is a merge, which unindexes an edge and then renames it in
place while the map is being walked. `WalkInv` follows the walk by the edges that
are not yet marked for deletion; it needs no assumption on the ids at all. Only
that the endpoints are nodes does: with the separator inside an id, a merge can
leave an edge at the node it removed.
-/

namespace Etherchimp

open Manager

/-- The edge belongs under this key. -/
def CanonicalAt (k : String) (e : Edge) : Prop :=
  e.id = k ∧ getCanonicalEdgeID e.fromID e.toID = (k, e.fromID, e.toID)

/-- Every edge is under its canonical id, and the index lists each under its endpoints. -/
structure Indexed (edges : KeyedMap String Edge) (idx : SetIndex String String) : Prop where
  canonical : ∀ k e, edges.lookup k = some e → CanonicalAt k e
  exact : SetIndex.Exact (fun n k => ∃ e, edges.lookup k = some e ∧ Incident n e) idx

/-- The edge keeps its id and its endpoints. -/
structure EndsKept (_ : String) (e e' : Edge) : Prop where
  id : e'.id = e.id
  fromID : e'.fromID = e.fromID
  toID : e'.toID = e.toID

theorem EndsKept.refl (k : String) (e : Edge) : EndsKept k e e := ⟨rfl, rfl, rfl⟩

theorem EndsKept.canonicalAt {k k' : String} {e e' : Edge} (h : EndsKept k e e') :
    CanonicalAt k' e' ↔ CanonicalAt k' e := by
  unfold CanonicalAt
  rw [h.id, h.fromID, h.toID]

theorem EndsKept.incident {k n : String} {e e' : Edge} (h : EndsKept k e e') :
    Incident n e' ↔ Incident n e := by
  unfold Incident
  rw [h.fromID, h.toID]

theorem absorbEdge_ends (k : String) (e e' : Edge) : EndsKept k e (absorbEdge e e') :=
  ⟨rfl, rfl, rfl⟩

section Index

variable {edges edges' : KeyedMap String Edge} {idx : SetIndex String String} {k : String} {e : Edge}
  {R : String → String → Prop}

/-- Indexing an edge files it under its two endpoints. -/
theorem exact_indexEdge (h : SetIndex.Exact R idx) (e : Edge) :
    SetIndex.Exact (fun n k => R n k ∨ (Incident n e ∧ k = e.id)) (indexEdgeLocked idx e) := by
  refine ((h.add e.id e.fromID).add e.id e.toID).congr fun n k => ?_
  unfold Incident
  rw [eq_comm (a := e.fromID), eq_comm (a := e.toID), or_and_right, or_assoc]

theorem unindexEdgeLocked_eq (idx : SetIndex String String) (e : Edge) :
    unindexEdgeLocked idx e = (idx.remove e.id e.fromID).remove e.id e.toID := by
  have hunder : ∀ (idx : SetIndex String String) (k n : String),
      unindexUnder idx k n = idx.remove k n := by
    intro idx k n
    unfold unindexUnder SetIndex.remove
    cases idx.lookup n <;> rfl
  show unindexUnder (unindexUnder idx e.id e.fromID) e.id e.toID = _
  rw [hunder, hunder]

/-- Unindexing takes it out from under both. -/
theorem exact_unindexEdge (h : SetIndex.Exact R idx) (e : Edge) :
    SetIndex.Exact (fun n k => R n k ∧ ¬ (Incident n e ∧ k = e.id)) (unindexEdgeLocked idx e) := by
  rw [unindexEdgeLocked_eq]
  refine ((h.remove e.id e.fromID).remove e.id e.toID).congr fun n k => ?_
  unfold Incident
  rw [eq_comm (a := e.fromID), eq_comm (a := e.toID), or_and_right, not_or, and_assoc]

theorem indexed_empty : Indexed ∅ ∅ where
  canonical k e hl := by cases hl
  exact := SetIndex.exact_empty.congr fun n k => ⟨False.elim, fun ⟨_, hl, _⟩ => by cases hl⟩

/-- Counters may change under every key. -/
theorem Indexed.update (h : Indexed edges idx) (hr : KeyedMap.Related EndsKept edges edges') :
    Indexed edges' idx where
  canonical k e' hl := by
    obtain ⟨e, he, hk⟩ := hr.lookup hl
    exact hk.canonicalAt.mpr (h.canonical k e he)
  exact := by
    refine h.exact.congr fun n k => ?_
    constructor
    · rintro ⟨e, he, hi⟩
      obtain ⟨e', he', hk⟩ := hr.lookup' he
      exact ⟨e', he', hk.incident.mpr hi⟩
    · rintro ⟨e', he', hi⟩
      obtain ⟨e, he, hk⟩ := hr.lookup he'
      exact ⟨e, he, hk.incident.mp hi⟩

/-- A new edge is added and indexed. -/
theorem Indexed.insert (h : Indexed edges idx) (hnew : edges.lookup k = none)
    (hc : CanonicalAt k e) : Indexed (edges.insert k e) (indexEdgeLocked idx e) where
  canonical a e' hl := by
    rw [KeyedMap.lookup_insert_eq] at hl
    split at hl
    · rename_i ha
      cases hl
      exact ha ▸ hc
    · exact h.canonical a e' hl
  exact := by
    refine (exact_indexEdge h.exact e).congr fun n a => ?_
    rw [hc.1, KeyedMap.lookup_insert_eq]
    by_cases ha : a = k
    · subst ha
      rw [if_pos rfl, hnew]
      simp
    · rw [if_neg ha]
      simp [ha]

/-- An edge is unindexed and deleted. -/
theorem Indexed.erase (h : Indexed edges idx)
    (he : ∀ e', edges.lookup e.id = some e' → EndsKept e.id e e') :
    Indexed (edges.erase e.id) (unindexEdgeLocked idx e) where
  canonical a e' hl := by
    rw [KeyedMap.lookup_erase_eq] at hl
    split at hl
    · cases hl
    · exact h.canonical a e' hl
  exact := by
    refine (exact_unindexEdge h.exact e).congr fun n a => ?_
    rw [KeyedMap.lookup_erase_eq]
    by_cases ha : a = e.id
    · subst ha
      rw [if_pos rfl]
      constructor
      · rintro ⟨⟨e', he', hi⟩, hn⟩
        exact absurd ⟨(he e' he').incident.mp hi, rfl⟩ hn
      · rintro ⟨_, hl, -⟩
        cases hl
    · rw [if_neg ha]
      simp [ha]

/-! ## The walk of a merge -/

/-- What the index and the edges are while a merge walks the map `E`. -/
structure WalkInv (E : KeyedMap String Edge) (done : List String) (s : EdgeLoop) : Prop where
  same : ∀ k, s.edges.lookup k = none ↔ E.lookup k = none
  visited : ∀ k ∈ s.edgesToDelete, k ∈ done
  canonical : ∀ k e, s.edges.lookup k = some e → k ∉ s.edgesToDelete → CanonicalAt k e
  /-- An edge to be added is new, and sits renamed under a key to be deleted. -/
  added : ∀ nk k, s.edgesToAdd.lookup nk = some k → E.lookup nk = none ∧ k ∈ s.edgesToDelete
    ∧ ∃ e, s.edges.lookup k = some e ∧ CanonicalAt nk e
  exact : SetIndex.Exact
    (fun n k => k ∉ s.edgesToDelete ∧ ∃ e, s.edges.lookup k = some e ∧ Incident n e) s.edgesByNode

variable {E : KeyedMap String Edge} {done : List String} {s s' : EdgeLoop} {newID oldID : String}

theorem WalkInv.more (h : WalkInv E done s) (k : String) : WalkInv E (done ++ [k]) s :=
  ⟨h.same, fun k' hk' => List.mem_append_left _ (h.visited k' hk'), h.canonical, h.added, h.exact⟩

/-- The visited edge is unindexed and marked for deletion. -/
theorem WalkInv.mark (h : WalkInv E done s) (hk : k ∉ done) (he : s.edges.lookup k = some e) :
    WalkInv E (done ++ [k])
      { s with
        edgesByNode := unindexEdgeLocked s.edgesByNode e
        edgesToDelete := s.edgesToDelete ++ [k] } where
  same := h.same
  visited k' hk' := by
    rcases List.mem_append.mp hk' with hk' | hk'
    · exact List.mem_append_left _ (h.visited k' hk')
    · exact List.mem_append_right _ hk'
  canonical k' e' hl hk' := h.canonical k' e' hl fun hm => hk' (List.mem_append_left _ hm)
  added nk k' hl := by
    obtain ⟨hnew, hdel, hadd⟩ := h.added nk k' hl
    exact ⟨hnew, List.mem_append_left _ hdel, hadd⟩
  exact := by
    have hid : e.id = k := (h.canonical k e he fun hm => hk (h.visited k hm)).1
    refine (exact_unindexEdge h.exact e).congr fun n k' => ?_
    rw [hid, List.mem_append, List.mem_singleton, not_or]
    constructor
    · rintro ⟨⟨hdel, e', he', hi⟩, hn⟩
      refine ⟨⟨hdel, ?_⟩, e', he', hi⟩
      rintro rfl
      rw [he] at he'
      cases he'
      exact hn ⟨hi, rfl⟩
    · rintro ⟨⟨hdel, hne⟩, hex⟩
      exact ⟨⟨hdel, hex⟩, fun hn => hne hn.2⟩

/-- Another edge takes over counters. -/
theorem WalkInv.update (h : WalkInv E done s) (hr : KeyedMap.Related EndsKept s.edges edges') :
    WalkInv E done { s with edges := edges' } where
  same k := hr.lookup_none.trans (h.same k)
  visited := h.visited
  canonical k e' hl hk := by
    obtain ⟨e, he, hends⟩ := hr.lookup hl
    exact hends.canonicalAt.mpr (h.canonical k e he hk)
  added nk k hl := by
    obtain ⟨hnew, hdel, e, he, hc⟩ := h.added nk k hl
    obtain ⟨e', he', hends⟩ := hr.lookup' he
    exact ⟨hnew, hdel, e', he', hends.canonicalAt.mpr hc⟩
  exact := by
    refine h.exact.congr fun n k => and_congr_right fun _ => ?_
    constructor
    · rintro ⟨e, he, hi⟩
      obtain ⟨e', he', hends⟩ := hr.lookup' he
      exact ⟨e', he', hends.incident.mpr hi⟩
    · rintro ⟨e', he', hi⟩
      obtain ⟨e, he, hends⟩ := hr.lookup he'
      exact ⟨e, he, hends.incident.mp hi⟩

/-- An edge under a key to be deleted is renamed and set to be added. -/
theorem WalkInv.rename {nk : String} (h : WalkInv E done s) (hk : k ∈ s.edgesToDelete)
    (hfree : ∀ nk' k', s.edgesToAdd.lookup nk' = some k' → k' ≠ k)
    (he : s.edges.lookup k ≠ none) (hnew : s.edges.lookup nk = none) (hc : CanonicalAt nk e) :
    WalkInv E done
      { s with edges := s.edges.insert k e, edgesToAdd := s.edgesToAdd.insert nk k } where
  same a := by
    show (s.edges.insert k e).lookup a = none ↔ _
    rw [KeyedMap.lookup_insert_eq, ← h.same a]
    by_cases ha : a = k
    · rw [if_pos ha, ha]
      exact iff_of_false nofun he
    · rw [if_neg ha]
  visited := h.visited
  canonical a e' hl ha := by
    have hak : a ≠ k := by
      rintro rfl
      exact ha hk
    exact h.canonical a e' ((AList.lookup_insert_ne hak).symm.trans hl) ha
  added nk' k' hl := by
    have hl : (s.edgesToAdd.insert nk k).lookup nk' = some k' := hl
    show E.lookup nk' = none ∧ k' ∈ s.edgesToDelete ∧ ∃ e', (s.edges.insert k e).lookup k' = some e' ∧ _
    rw [KeyedMap.lookup_insert_eq] at hl
    split at hl
    · rename_i hnk
      cases hl
      subst hnk
      exact ⟨(h.same nk').mp hnew, hk, e, AList.lookup_insert _, hc⟩
    · obtain ⟨hnew', hdel, e', he', hc'⟩ := h.added nk' k' hl
      rw [AList.lookup_insert_ne (hfree nk' k' hl)]
      exact ⟨hnew', hdel, e', he', hc'⟩
  exact := by
    refine h.exact.congr fun n a => and_congr_right fun ha => ?_
    have hak : a ≠ k := by
      rintro rfl
      exact ha hk
    show _ ↔ ∃ e', (s.edges.insert k e).lookup a = some e' ∧ _
    rw [AList.lookup_insert_ne hak]

/-- One key of the walk. -/
theorem walkInv_step (h : WalkInv E done s) (hk : k ∉ done) :
    WalkInv E (done ++ [k]) (rekeyEdge newID oldID s k) := by
  unfold rekeyEdge
  cases he : s.edges.lookup k with
  | none => exact h.more k
  | some edge =>
    dsimp only
    split
    · exact h.more k
    have hmark := h.mark hk he
    split
    · exact hmark
    obtain ⟨nk, f, t, hc⟩ : ∃ nk f t, getCanonicalEdgeID (repoint newID oldID edge.fromID)
      (repoint newID oldID edge.toID) = (nk, f, t) := ⟨_, _, _, rfl⟩
    rw [hc]
    dsimp only
    split
    · exact h.more k
    cases hex : s.edges.lookup nk with
    | some existing =>
      exact hmark.update
        (KeyedMap.related_insert EndsKept.refl hex (absorbEdge_ends nk existing edge))
    | none =>
      dsimp only
      cases hadd : s.edgesToAdd.lookup nk with
      | some key =>
        exact hmark.update
          (KeyedMap.related_adjust EndsKept.refl _ fun e' => absorbEdge_ends key e' edge)
      | none =>
        refine hmark.rename (List.mem_append_right _ (List.mem_singleton_self k)) ?_ ?_ hex
          ⟨rfl, getCanonicalEdgeID_idem hc⟩
        · rintro nk' k' hl rfl
          exact hk (h.visited k' (h.added nk' k' hl).2.1)
        · show s.edges.lookup k ≠ none
          rw [he]
          nofun

/-- The walk over all keys. -/
theorem walkInv_walk (h : Indexed E idx) :
    WalkInv E E.keys (E.keys.foldl (rekeyEdge newID oldID) ⟨E, idx, [], ∅⟩) := by
  have hwalk : ∀ l : List String, l.Nodup →
      WalkInv E l (l.foldl (rekeyEdge newID oldID) ⟨E, idx, [], ∅⟩) := by
    intro l
    induction l using List.reverseRecOn with
    | nil =>
      intro _
      exact ⟨fun _ => Iff.rfl, nofun, fun k e hl _ => h.canonical k e hl, nofun,
        h.exact.congr fun n k => (and_iff_right List.not_mem_nil).symm⟩
    | append_singleton l k ih =>
      intro hnd
      rw [List.nodup_append] at hnd
      rw [List.foldl_append]
      exact walkInv_step (ih hnd.1) fun hk => hnd.2.2 k hk k (List.mem_singleton_self k) rfl
  exact hwalk E.keys (AList.keys_nodup E)

/-- The additions, one new key after the other. -/
theorem indexed_additions (loop : EdgeLoop) : ∀ (l : List (Sigma fun _ : String => String))
    (s : EdgeLoop), l.NodupKeys → Indexed s.edges s.edgesByNode →
    (∀ x ∈ l, s.edges.lookup x.1 = none ∧ ∃ e, loop.edges.lookup x.2 = some e ∧ CanonicalAt x.1 e) →
    Indexed (l.foldl (addRekeyed loop) s).edges (l.foldl (addRekeyed loop) s).edgesByNode := by
  intro l
  induction l with
  | nil => intro s _ h _; exact h
  | cons x l ih =>
    intro s hnd h hl
    rw [List.nodupKeys_cons] at hnd
    obtain ⟨hnew, e, he, hc⟩ := hl x (List.mem_cons_self ..)
    have hstep : addRekeyed loop s x
        = { s with edges := s.edges.insert x.1 e, edgesByNode := indexEdgeLocked s.edgesByNode e } := by
      unfold addRekeyed
      rw [he]
    rw [List.foldl_cons, hstep]
    refine ih _ hnd.2 (h.insert hnew hc) fun y hy => ?_
    obtain ⟨hnew', hadd⟩ := hl y (List.mem_cons_of_mem _ hy)
    have hne : y.1 ≠ x.1 := by
      intro heq
      exact hnd.1 (heq ▸ List.mem_map_of_mem hy)
    exact ⟨(AList.lookup_insert_ne hne).trans hnew', hadd⟩

/-- **A merge keeps the index exact.** -/
theorem Indexed.merge (h : Indexed E idx) (newID oldID : String) :
    Indexed (mergeEdges newID oldID E idx).edges (mergeEdges newID oldID E idx).edgesByNode := by
  have hw : WalkInv E E.keys (E.keys.foldl (rekeyEdge newID oldID) ⟨E, idx, [], ∅⟩) :=
    walkInv_walk h
  unfold mergeEdges
  dsimp only
  generalize E.keys.foldl (rekeyEdge newID oldID) ⟨E, idx, [], ∅⟩ = loop at hw
  refine indexed_additions loop _ _ loop.edgesToAdd.nodupKeys ⟨?_, ?_⟩ ?_
  · intro k e hl
    rw [KeyedMap.lookup_eraseAll] at hl
    split at hl
    · cases hl
    · rename_i hk
      exact hw.canonical k e hl hk
  · refine hw.exact.congr fun n k => ?_
    rw [KeyedMap.lookup_eraseAll]
    by_cases hk : k ∈ loop.edgesToDelete
    · simp [hk]
    · simp [hk]
  · intro x hx
    obtain ⟨hnew, -, hadd⟩ := hw.added x.1 x.2 ((KeyedMap.mem_entries_iff _ _ _).mp hx)
    refine ⟨?_, hadd⟩
    rw [KeyedMap.lookup_eraseAll, (hw.same x.1).mpr hnew, ite_self]

end Index

/-! ## Counting and loading edges -/

section Ops

/-- The index of a manager is exact. -/
def AdjacencyExact (m : Manager) : Prop := Indexed m.edges m.edgesByNode

variable {m m' : Manager}

theorem AdjacencyExact.of_eq (he : m'.edges = m.edges) (hx : m'.edgesByNode = m.edgesByNode)
    (h : AdjacencyExact m) : AdjacencyExact m' := by
  unfold AdjacencyExact
  rw [he, hx]
  exact h

theorem addPeersLocked_edgesByNode (m : Manager) (aID bID : String) :
    (m.addPeersLocked aID bID).edgesByNode = m.edgesByNode := by
  unfold addPeersLocked
  split
  · rfl
  · split <;> rfl

theorem AdjacencyExact.countOnEdge {a b key f t : String} {isForward : Bool} {protocol : Protocol}
    {bytes : Nat} {now : Int} (h : AdjacencyExact m) (hc : getCanonicalEdgeID a b = (key, f, t)) :
    AdjacencyExact (m.countOnEdge key f t isForward protocol bytes now) := by
  unfold Manager.countOnEdge
  cases he : m.edges.lookup key with
  | none => exact Indexed.insert h he ⟨rfl, getCanonicalEdgeID_idem hc⟩
  | some edge =>
    refine Indexed.update h (KeyedMap.related_insert EndsKept.refl he ?_)
    obtain ⟨hf, ht, hid⟩ := countPacket_ends edge isForward protocol bytes now
    exact ⟨hid, hf, ht⟩

theorem AdjacencyExact.addOrUpdateEdge (h : AdjacencyExact m) (srcIP dstIP : String)
    (protocol : Protocol) (bytes : Nat) (now : Int) :
    AdjacencyExact (m.addOrUpdateEdgeLocked srcIP dstIP protocol bytes now) := by
  obtain ⟨key, f, t, hc⟩ : ∃ key f t, getCanonicalEdgeID ((m.countProtocol protocol).resolve srcIP)
    ((m.countProtocol protocol).resolve dstIP) = (key, f, t) := ⟨_, _, _, rfl⟩
  have hpeers : AdjacencyExact ((m.countProtocol protocol).addPeersLocked f t) :=
    h.of_eq (addPeersLocked_edges ..) (addPeersLocked_edgesByNode ..)
  unfold addOrUpdateEdgeLocked
  dsimp only
  rw [hc]
  exact hpeers.countOnEdge hc

theorem AdjacencyExact.bulkEdge (h : AdjacencyExact m) (reg : Registry) (e : BulkEdge) (now : Int) :
    AdjacencyExact (m.bulkEdge reg e now) := by
  unfold Manager.bulkEdge
  dsimp only
  split
  · exact h
  obtain ⟨key, f, t, hc⟩ : ∃ key f t, getCanonicalEdgeID (m.resolve e.fromID) (m.resolve e.toID)
    = (key, f, t) := ⟨_, _, _, rfl⟩
  have hpeers : AdjacencyExact (m.addPeersLocked f t) :=
    h.of_eq (addPeersLocked_edges ..) (addPeersLocked_edgesByNode ..)
  rw [hc]
  dsimp only
  cases he : (m.addPeersLocked f t).edges.lookup key with
  | none => exact Indexed.insert hpeers he ⟨rfl, getCanonicalEdgeID_idem hc⟩
  | some edge =>
    exact Indexed.update hpeers (KeyedMap.related_insert EndsKept.refl he ⟨rfl, rfl, rfl⟩)

theorem AdjacencyExact.removeStaleEdges (h : AdjacencyExact m) (threshold now : Int) :
    AdjacencyExact (m.removeStaleEdges threshold now).1 := by
  have hid : ∀ k e, m.edges.lookup k = some e → Edge.id e = k :=
    fun k e he => (h.canonical k e he).1
  obtain ⟨hnd, hfound⟩ :=
    staleValues_spec Edge.lastSeen maxEdgeRemovalsPerSweep threshold now hid
  have hsweep : ∀ (l : List Edge) (m' : Manager), AdjacencyExact m' → (l.map Edge.id).Nodup →
      (∀ e ∈ l, m'.edges.lookup e.id = some e) → AdjacencyExact (l.foldl removeEdge m') := by
    intro l
    induction l with
    | nil => intro m' hm' _ _; exact hm'
    | cons e l ih =>
      intro m' hm' hnd hf
      rw [List.map_cons, List.nodup_cons] at hnd
      refine ih (m'.removeEdge e) (Indexed.erase hm' fun e' he' => ?_) hnd.2 fun v hv => ?_
      · rw [hf e (List.mem_cons_self ..)] at he'
        cases he'
        exact EndsKept.refl _ e
      · have hne : v.id ≠ e.id := fun heq => hnd.1 (heq ▸ List.mem_map_of_mem hv)
        exact (AList.lookup_erase_ne hne).trans (hf v (List.mem_cons_of_mem _ hv))
  unfold Manager.removeStaleEdges
  dsimp only
  split
  · exact hsweep _ _ (h.of_eq rfl rfl) hnd hfound
  · exact hsweep _ _ h hnd hfound

theorem removeStaleNodes_edges (m : Manager) (threshold now : Int) :
    (m.removeStaleNodes threshold now).1.edges = m.edges
      ∧ (m.removeStaleNodes threshold now).1.edgesByNode = m.edgesByNode := by
  have hsweep : ∀ (l : List Node) (m' : Manager), (l.foldl removeNode m').edges = m'.edges
      ∧ (l.foldl removeNode m').edgesByNode = m'.edgesByNode := by
    intro l
    induction l with
    | nil => intro m'; exact ⟨rfl, rfl⟩
    | cons n l ih => intro m'; exact ih (m'.removeNode n)
  unfold removeStaleNodes
  dsimp only
  split
  · exact hsweep _ _
  · exact hsweep _ _

variable [RuneCase]

theorem countEndpoint_edgesByNode (m : Manager) (nodeID ip hostname : String) (bytes : Nat)
    (now : Int) :
    (m.countEndpoint nodeID ip hostname bytes now).edgesByNode = m.edgesByNode := by
  unfold countEndpoint
  dsimp only
  split <;> rfl

theorem adjacencyExact_upheld : Upheld (fun _ => True) (fun _ _ _ => True) AdjacencyExact where
  touched ht h := h.of_eq ht.edges ht.edgesByNode
  admissible _ _ := ⟨trivial, fun _ _ => trivial⟩
  claim _ h := h.of_eq (claimHostname_kept _ _ _).edges (claimHostname_kept _ _ _).edgesByNode
  merge _ _ _ h := Indexed.merge h _ _
  labels _ := trivial
  named _ _ := trivial
  endpoint _ _ h := h.of_eq (countEndpoint_edges ..) (countEndpoint_edgesByNode ..)
  packet _ _ h := h.addOrUpdateEdge _ _ _ _ _

theorem AdjacencyExact.addOrUpdateNode (h : AdjacencyExact m) (ip hostname : String) (bytes : Nat)
    (now : Int) : AdjacencyExact (m.addOrUpdateNodeLocked ip hostname bytes now) :=
  adjacencyExact_upheld.addOrUpdateNode bytes now trivial trivial (fun _ _ => trivial) h

theorem AdjacencyExact.bulkLoad (h : AdjacencyExact m) (reg : Registry) (nodes : List BulkNode)
    (edges : List BulkEdge) (clock : Nat → Int) :
    AdjacencyExact (m.bulkLoad reg nodes edges clock) := by
  have hnodes : AdjacencyExact (m.bulkNodes nodes clock) :=
    Run.invariant h (fun _ r hm _ => hm.addOrUpdateNode r.1.id r.1.hostname 0 (clock r.2))
      (Run.guarded_true m nodes.zipIdx)
  have hrow : ∀ (m : Manager) (r : BulkEdge × Nat), AdjacencyExact m → True →
      AdjacencyExact (m.bulkEdge reg r.1 (clock (nodes.length + r.2))) :=
    fun m r hm _ => hm.bulkEdge reg r.1 _
  refine Run.invariant (AdjacencyExact.of_eq ?_ ?_ hnodes) hrow (Run.guarded_true _ edges.zipIdx)
  · rfl
  · rfl

theorem adjacencyExact_step (m : Manager) (op : Op) (h : AdjacencyExact m) :
    AdjacencyExact (op.apply m) := by
  cases op with
  | addOrUpdateNode ip hostname bytes now => exact h.addOrUpdateNode ip hostname bytes now
  | addOrUpdateEdge srcIP dstIP protocol bytes now =>
    exact h.addOrUpdateEdge srcIP dstIP protocol bytes now
  | ingest pkt srcHostname dstHostname clock =>
    exact adjacencyExact_upheld.ingest m ⟨pkt, srcHostname, dstHostname, clock⟩
      ⟨trivial, trivial, trivial, trivial, fun _ _ _ => trivial, fun _ _ _ => trivial⟩
      (merges_true [⟨pkt, srcHostname, dstHostname, clock⟩] m).1 h
  | bulkLoad reg nodes edges clock => exact h.bulkLoad reg nodes edges clock
  | removeStaleNodes threshold now =>
    obtain ⟨he, hx⟩ := removeStaleNodes_edges m threshold now
    exact h.of_eq he hx
  | removeStaleEdges threshold now => exact h.removeStaleEdges threshold now
  | clear => exact indexed_empty

theorem adjacencyExact_run (ops : List Op) : AdjacencyExact (runOps ops) :=
  Run.invariant (P := AdjacencyExact) (show AdjacencyExact newManager from indexed_empty)
    (fun m op h _ => adjacencyExact_step m op h) (Run.guarded_true newManager ops)

theorem linked_run {calls : List IngestCall} (hids : ∀ c ∈ calls, c.Unambiguous)
    (hmacs : ∀ c ∈ calls, SepFree c.pkt.srcMAC ∧ SepFree c.pkt.dstMAC) :
    Linked (ingestAll calls) := by
  refine linked_upheld.run linked_init (fun c hc => ?_) (merges_true calls newManager)
  obtain ⟨hsrc, hdst, hsh, hdh⟩ := hids c hc
  obtain ⟨hsm, hdm⟩ := hmacs c hc
  exact ⟨hsrc, hdst, hsh, hdh, fun _ _ _ => hsm, fun _ _ _ => hdm⟩

/--
**The adjacency index is exact after every run of calls**, and after runs of
`Ingest` alone every edge joins two nodes. A MAC becomes a node id when it
anchors, so there the MACs must be unambiguous like the other ids.
-/
theorem adjacencyIndex_exact :
    (∀ ops : List Op,
      (∀ k e, (runOps ops).edges.lookup k = some e →
        e.id = k ∧ getCanonicalEdgeID e.fromID e.toID = (k, e.fromID, e.toID))
      ∧ (∀ n, (∃ set, (runOps ops).edgesByNode.lookup n = some set)
          ↔ ∃ k e, (runOps ops).edges.lookup k = some e ∧ Incident n e)
      ∧ ∀ n set, (runOps ops).edgesByNode.lookup n = some set →
          ∀ k, k ∈ set ↔ ∃ e, (runOps ops).edges.lookup k = some e ∧ Incident n e)
    ∧ ∀ calls : List IngestCall, (∀ c ∈ calls, c.Unambiguous) →
        (∀ c ∈ calls, SepFree c.pkt.srcMAC ∧ SepFree c.pkt.dstMAC) →
        ∀ k e, (ingestAll calls).edges.lookup k = some e →
          (∃ n, (ingestAll calls).nodes.lookup e.fromID = some n)
            ∧ ∃ n, (ingestAll calls).nodes.lookup e.toID = some n := by
  constructor
  · intro ops
    obtain ⟨hcanonical, hexact⟩ := adjacencyExact_run ops
    exact ⟨hcanonical, hexact.present_iff, hexact.members⟩
  · intro calls hids hmacs k e hl
    exact (linked_run hids hmacs).ends k e hl

/-- A host and the server it talks to. -/
def requestRun : List IngestCall :=
  [{ pkt := { srcIP := "10.0.0.5", dstIP := "10.0.0.7", srcMAC := "aa:bb:cc:00:11:22", length := 60 } }]


end Ops

/-- Its edge joins the node keyed by the host's MAC and the server's. -/
theorem adjacencyIndex_exact_request :
    ∀ k e, (ingestAll requestRun).edges.lookup k = some e →
      (∃ n, (ingestAll requestRun).nodes.lookup e.fromID = some n)
        ∧ ∃ n, (ingestAll requestRun).nodes.lookup e.toID = some n := by
  refine adjacencyIndex_exact.2 requestRun (fun c hc => ?_) (by decide)
  rw [requestRun, List.mem_singleton] at hc
  subst hc
  exact ⟨by decide, by decide, by decide, by decide⟩

end Etherchimp
