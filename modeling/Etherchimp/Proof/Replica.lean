import Etherchimp.Lib.Run
import Etherchimp.Proof.Chunks

/-!
# The delta stream replicates the view

A mirror that starts empty and applies every message of every tick holds the ids of
the view just built, each entry render equal to the view's. It is compared with the
last view *built*, which is what the server diffs against: an entry that is not
listed is render equal to its predecessor, and render equality is transitive.

A full snapshot that is chunked drops the edges that lead outside its nodes, so the
views are asked to have none.
-/

namespace Etherchimp

variable {F : Type}

/-- A client that holds whatever it is sent. -/
structure ViewMirror (F : Type) where
  nodes : KeyedMap String (ViewNode F) := ∅
  edges : KeyedMap String (ViewEdge F) := ∅

/-- Upsert the listed nodes and edges, delete the removed ones. -/
def ViewMirror.receive (m : ViewMirror F) (d : ViewDelta F) : ViewMirror F where
  nodes := Delta.receive ViewNode.id id m.nodes (d.nodes, d.removedNodes)
  edges := Delta.receive ViewEdge.id id m.edges (d.edges, d.removedEdges)

theorem ViewMirror.receive_foldl (msgs : List (ViewDelta F)) (m : ViewMirror F) :
    (msgs.foldl receive m).nodes = (msgs.map fun d => (d.nodes, d.removedNodes)).foldl
        (Delta.receive ViewNode.id id) m.nodes
      ∧ (msgs.foldl receive m).edges = (msgs.map fun d => (d.edges, d.removedEdges)).foldl
        (Delta.receive ViewEdge.id id) m.edges := by
  induction msgs generalizing m with
  | nil => exact ⟨rfl, rfl⟩
  | cons d msgs ih => exact ih (m.receive d)

/-- What the hub does for one client at one tick. -/
structure Tick (F : Type) where
  view : ViewSnapshot F
  flows : List TrafficFlow := []
  full : Bool := false

/-- No edge of a chunked full snapshot leads outside its nodes. -/
def ViewSnapshot.Enclosed (view : ViewSnapshot F) : Prop :=
  fullChunkSize < view.nodes.length → ∀ e ∈ view.edges, Within view.nodes e

/-- The ids are distinct, and a full snapshot is enclosed. -/
def Tick.Sendable (t : Tick F) : Prop := t.view.Distinct ∧ (t.full = true → t.view.Enclosed)

instance (view : ViewSnapshot F) : Decidable view.Enclosed := by
  unfold ViewSnapshot.Enclosed; infer_instance

instance (t : Tick F) : Decidable t.Sendable := by unfold Tick.Sendable; infer_instance

variable [Float64 F]

/-- Build the delta and have the mirror apply its messages. -/
def deltaTick (s : Client F × ViewMirror F) (t : Tick F) : Client F × ViewMirror F :=
  let r := s.1.buildDelta t.view t.flows t.full
  (r.2, match r.1 with
    | none => s.2
    | some d => (splitDelta d).foldl ViewMirror.receive s.2)

/-- The mirror holds the view: the same ids, and render equal entries. -/
structure Replicates (m : ViewMirror F) (view : ViewSnapshot F) : Prop where
  nodeIDs : ∀ id, (∃ n, m.nodes.lookup id = some n) ↔ id ∈ view.nodes.map ViewNode.id
  nodes : ∀ n ∈ view.nodes, ∃ n', m.nodes.lookup n.id = some n' ∧ nodeRenderEqual n' n = true
  edgeIDs : ∀ id, (∃ e, m.edges.lookup id = some e) ↔ id ∈ view.edges.map ViewEdge.id
  edges : ∀ e ∈ view.edges, ∃ e', m.edges.lookup e.id = some e' ∧ edgeRenderEqual e' e = true

/-- The invariant: the mirror is render equal, id by id, to what the server diffs against. -/
structure InStep (s : Client F × ViewMirror F) : Prop where
  nodes : KeyedMap.Related (fun _ a b => nodeRenderEqual a b = true) s.2.nodes s.1.lastNodes
  edges : KeyedMap.Related (fun _ a b => edgeRenderEqual a b = true) s.2.edges s.1.lastEdges

/-! ## One tick -/

/-- Render related maps, one holding a list: the other holds the same ids, render equal. -/
theorem related_holds {α : Type} {key : α → String} {same : α → α → Bool} {view : List α}
    {m last : KeyedMap String α}
    (hm : KeyedMap.Related (fun _ a b => same a b = true) m last) (hh : Delta.Holds key view last) :
    (∀ id, (∃ x, m.lookup id = some x) ↔ id ∈ view.map key)
      ∧ ∀ x ∈ view, ∃ x', m.lookup (key x) = some x' ∧ same x' x = true := by
  constructor
  · intro id
    constructor
    · intro ⟨x, hl⟩
      obtain ⟨y, hy, -⟩ := hm.lookup' hl
      obtain ⟨hin, rfl⟩ := (hh id y).mp hy
      exact List.mem_map_of_mem hin
    · intro hk
      obtain ⟨y, hy, rfl⟩ := List.mem_map.mp hk
      obtain ⟨x, hx, -⟩ := hm.lookup (hh.lookup hy)
      exact ⟨x, hx⟩
  · intro x hx
    exact hm.lookup (hh.lookup hx)

theorem InStep.replicates {c : Client F} {m : ViewMirror F} {view : ViewSnapshot F}
    (h : InStep (c, m)) (hn : Delta.Holds ViewNode.id view.nodes c.lastNodes)
    (he : Delta.Holds ViewEdge.id view.edges c.lastEdges) : Replicates m view where
  nodeIDs := (related_holds h.nodes hn).1
  nodes := (related_holds h.nodes hn).2
  edgeIDs := (related_holds h.edges he).1
  edges := (related_holds h.edges he).2

/-- What a delta lists on a full build is the view. -/
theorem diff_full {α : Type} {key : α → String} {same : α → α → Bool} {last : KeyedMap String α}
    {view : List α} (hnd : (view.map key).Nodup) :
    (Delta.diff key same true last view).changed = view := by
  rw [Delta.diff_changed hnd]
  exact List.filter_eq_self.mpr fun _ _ => rfl

/-- A delta removes no key it lists. -/
theorem removed_notListed {α : Type} {key : α → String} {same : α → α → Bool} {full : Bool}
    {last : KeyedMap String α} {view l : List α} {k : String} (hnd : (view.map key).Nodup)
    (hsub : l ⊆ (Delta.diff key same full last view).changed)
    (hk : k ∈ (Delta.diff key same full last view).removed) : k ∉ l.map key := by
  intro hmem
  obtain ⟨x, hx, rfl⟩ := List.mem_map.mp hmem
  have hx := hsub hx
  rw [Delta.diff_changed hnd] at hx
  exact ((Delta.mem_diff_removed hnd).mp hk).1 (List.mem_map_of_mem (List.mem_filter.mp hx).1)

/-- What a delta carries: the two diffs. -/
structure Carries (c : Client F) (view : ViewSnapshot F) (full : Bool) (d : ViewDelta F) : Prop where
  nodes : d.nodes = (c.diffNodes full view).changed
  edges : d.edges = (c.diffEdges full view).changed
  removedNodes : d.removedNodes = (c.diffNodes full view).removed
  removedEdges : d.removedEdges = (c.diffEdges full view).removed
  isFull : d.isFull = full
  isPartial : d.isPartial = false

/-- A delta that is not sent would have been empty. -/
structure Empty (c : Client F) (view : ViewSnapshot F) (full : Bool) : Prop where
  notFull : full = false
  nodes : (c.diffNodes full view).changed = []
  edges : (c.diffEdges full view).changed = []
  removedNodes : (c.diffNodes full view).removed = []
  removedEdges : (c.diffEdges full view).removed = []

theorem buildDelta_spec (c : Client F) (view : ViewSnapshot F) (flows : List TrafficFlow)
    (full : Bool) :
    (c.buildDelta view flows full).2
        = { c with lastNodes := (c.diffNodes full view).last, lastEdges := (c.diffEdges full view).last }
      ∧ match (c.buildDelta view flows full).1 with
        | none => Empty c view full
        | some d => Carries c view full d := by
  unfold Client.buildDelta
  dsimp only
  split
  · rename_i hnil
    obtain ⟨hfull, hnc, hec, hnr, her, -⟩ := hnil
    exact ⟨rfl, Bool.not_eq_true _ ▸ hfull, hnc, hec, hnr, her⟩
  · exact ⟨rfl, rfl, rfl, rfl, rfl, rfl, rfl⟩

/-- The edges a tick delivers: in chunks, those between the nodes of the view. -/
def deliveredEdges (c : Client F) (t : Tick F) : List (ViewEdge F) :=
  if t.full ∧ fullChunkSize < t.view.nodes.length then
    t.view.edges.filter fun e => Within t.view.nodes e
  else (c.diffEdges t.full t.view).changed

/-- The mirror's maps after a tick, in terms of what the delta lists and removes. -/
theorem deltaTick_lookup (s : Client F × ViewMirror F) {t : Tick F} (hd : t.view.Distinct) :
    ∃ edges : List (ViewEdge F), edges.Perm (deliveredEdges s.1 t)
      ∧ (∀ k, (deltaTick s t).2.nodes.lookup k
          = if k ∈ (s.1.diffNodes t.full t.view).removed then none
            else (Delta.upsert ViewNode.id id s.2.nodes
              (s.1.diffNodes t.full t.view).changed).lookup k)
      ∧ ∀ k, (deltaTick s t).2.edges.lookup k
          = if k ∈ (s.1.diffEdges t.full t.view).removed then none
            else (Delta.upsert ViewEdge.id id s.2.edges edges).lookup k := by
  obtain ⟨-, hmsg⟩ := buildDelta_spec s.1 t.view t.flows t.full
  unfold deltaTick
  dsimp only
  cases hbuilt : (s.1.buildDelta t.view t.flows t.full).1 with
  | none =>
    rw [hbuilt] at hmsg
    rw [hmsg.nodes, hmsg.removedNodes, hmsg.removedEdges]
    refine ⟨[], ?_, fun _ => rfl, fun _ => rfl⟩
    rw [deliveredEdges, if_neg (by simp [hmsg.notFull]), hmsg.edges]
  | some d =>
    rw [hbuilt] at hmsg
    dsimp only
    obtain ⟨hsplit, -⟩ := splitDelta_spec d
    have hedges : ((splitDelta d).map ViewDelta.edges).flatten.Perm (deliveredEdges s.1 t) := by
      refine hsplit.edges.trans ?_
      rw [hmsg.edges, hmsg.nodes, hmsg.isFull]
      by_cases hfull : t.full = true
      · have hn : (s.1.diffNodes t.full t.view).changed = t.view.nodes := by
          rw [Client.diffNodes, hfull, diff_full hd.nodes]
        have he : (s.1.diffEdges t.full t.view).changed = t.view.edges := by
          rw [Client.diffEdges, hfull, diff_full hd.edges]
        rw [hn, deliveredEdges, he]
      · rw [deliveredEdges, if_neg fun h => hfull h.1, if_neg fun h => hfull h.1]
    have hsub : ((splitDelta d).map ViewDelta.edges).flatten ⊆ (s.1.diffEdges t.full t.view).changed := by
      intro e he
      have he := hsplit.edges.subset he
      rw [hmsg.edges] at he
      split at he
      · exact (List.mem_filter.mp he).1
      · exact he
    refine ⟨_, hedges, ?_, ?_⟩
    · intro k
      rw [(ViewMirror.receive_foldl (splitDelta d) s.2).1, Delta.receive_foldl]
      · simp only [List.map_map, Function.comp_def, hsplit.nodes, hsplit.removedNodes, hmsg.nodes,
          hmsg.removedNodes]
      · simp only [List.map_map, Function.comp_def, hsplit.nodes, hsplit.removedNodes, hmsg.nodes,
          hmsg.removedNodes]
        exact fun k => removed_notListed hd.nodes (List.Subset.refl _)
    · intro k
      rw [(ViewMirror.receive_foldl (splitDelta d) s.2).2, Delta.receive_foldl]
      · simp only [List.map_map, Function.comp_def, hsplit.removedEdges, hmsg.removedEdges]
      · simp only [List.map_map, Function.comp_def, hsplit.removedEdges, hmsg.removedEdges]
        exact fun k => removed_notListed hd.edges hsub

theorem buildDelta_last (c : Client F) (view : ViewSnapshot F) (flows : List TrafficFlow)
    (full : Bool) : (c.buildDelta view flows full).2.lastNodes = (c.diffNodes full view).last
      ∧ (c.buildDelta view flows full).2.lastEdges = (c.diffEdges full view).last := by
  rw [(buildDelta_spec c view flows full).1]
  exact ⟨rfl, rfl⟩

/-- **One tick keeps the mirror in step.** -/
theorem InStep.tick {s : Client F × ViewMirror F} {t : Tick F} (ht : t.Sendable) (h : InStep s) :
    InStep (deltaTick s t) := by
  obtain ⟨edges, hp, hln, hle⟩ := deltaTick_lookup s ht.1
  have hdelivered : deliveredEdges s.1 t = (s.1.diffEdges t.full t.view).changed := by
    unfold deliveredEdges
    split
    · rename_i hchunked
      rw [List.filter_eq_self.mpr fun e he => decide_eq_true (ht.2 hchunked.1 hchunked.2 e he),
        Client.diffEdges, hchunked.1, diff_full ht.1.edges]
    · rfl
  rw [hdelivered] at hp
  obtain ⟨hlastn, hlaste⟩ := buildDelta_last s.1 t.view t.flows t.full
  constructor
  · show KeyedMap.Related _ _ (s.1.buildDelta t.view t.flows t.full).2.lastNodes
    rw [hlastn]
    exact Delta.mirror_receive ht.1.nodes h.nodes (List.Perm.refl _) hln nodeRenderEqual_refl
      fun _ _ _ _ hr hs => nodeRenderEqual_trans hr hs
  · show KeyedMap.Related _ _ (s.1.buildDelta t.view t.flows t.full).2.lastEdges
    rw [hlaste]
    exact Delta.mirror_receive ht.1.edges h.edges hp hle edgeRenderEqual_refl
      fun _ _ _ _ hr hs => edgeRenderEqual_trans hr hs

/-! ## Runs -/

/--
**The mirror holds the current view after every tick**, for views with distinct ids
whose chunked full snapshots are enclosed.
-/
theorem deltaStream_replicates (cfg : ViewConfig) (ticks : List (Tick F)) (t : Tick F)
    (h : ∀ t' ∈ ticks ++ [t], t'.Sendable) :
    Replicates (Run.exec deltaTick ({ cfg := cfg }, {}) (ticks ++ [t])).2 t.view := by
  have hinit : InStep (({ cfg := cfg }, {}) : Client F × ViewMirror F) :=
    ⟨fun _ => Option.Rel.none, fun _ => Option.Rel.none⟩
  have hlast : t.Sendable := h t (by simp)
  have hsend : Run.Guarded deltaTick (fun _ t => t.Sendable) ({ cfg := cfg }, {}) ticks :=
    Run.guarded_of_forall _ fun t' ht' => h t' (by simp [ht'])
  have hrun : InStep (Run.exec deltaTick ({ cfg := cfg }, {}) ticks) :=
    Run.invariant hinit (fun _ _ hs ht => hs.tick ht) hsend
  rw [Run.exec_concat]
  obtain ⟨hn, he⟩ := buildDelta_last (Run.exec deltaTick ({ cfg := cfg }, {}) ticks).1 t.view
    t.flows t.full
  refine (hrun.tick hlast).replicates ?_ ?_
  · rw [hn]
    exact Delta.diff_last hlast.1.nodes
  · rw [he]
    exact Delta.diff_last hlast.1.edges

/-- An edge that leads outside a chunked full snapshot never reaches the mirror. -/
theorem chunkedFull_drops {s : Client F × ViewMirror F} {t : Tick F} {e : ViewEdge F}
    (hd : t.view.Distinct) (hfull : t.full = true) (hlen : fullChunkSize < t.view.nodes.length)
    (he : e ∈ t.view.edges) (hout : ¬ Within t.view.nodes e)
    (hnone : s.2.edges.lookup e.id = none) : (deltaTick s t).2.edges.lookup e.id = none := by
  obtain ⟨edges, hp, -, hle⟩ := deltaTick_lookup s hd
  rw [hle]
  split
  · rfl
  · rw [Delta.upsert_lookup_of_notMem, hnone]
    intro hk
    obtain ⟨e', he', hid⟩ := List.mem_map.mp hk
    rw [hp.mem_iff, deliveredEdges, if_pos ⟨hfull, hlen⟩, List.mem_filter] at he'
    rw [List.inj_on_of_nodup_map hd.edges he'.1 he hid] at he'
    exact hout (of_decide_eq_true he'.2)

/-- A full snapshot, a node that grows, and a node that leaves. -/
def smallTicks : List (Tick Int) :=
  [{ view := { nodes := [{ id := "10.0.0.5", value := 1, x := 0, y := 0 },
                         { id := "10.0.0.6", value := 1, x := 5, y := 0 }]
               edges := [{ id := "10.0.0.5<->10.0.0.6", fromID := "10.0.0.5", toID := "10.0.0.6",
                           protocol := protocolTCP, packetCount := 1, width := 1 }] }
     full := true },
   { view := { nodes := [{ id := "10.0.0.5", value := 900, x := 0, y := 0 },
                         { id := "10.0.0.6", value := 1, x := 5, y := 0 }]
               edges := [] } }]

theorem deltaStream_replicates_small :
    Replicates (Run.exec deltaTick (({}, {}) : Client Int × ViewMirror Int)
      (smallTicks ++ [{ view := { nodes := [], edges := [] } }])).2 { nodes := [], edges := [] } :=
  deltaStream_replicates {} smallTicks { view := { nodes := [], edges := [] } } (by decide)

/-- One host more than a chunk holds, and an edge to a host that is not shown. -/
def crowdedView : ViewSnapshot Int where
  nodes := (List.range (fullChunkSize + 1)).map fun i =>
    { id := String.ofList (List.replicate i 'h'), value := 0, x := 0, y := 0 }
  edges := [{ id := "h<->out", fromID := "h", toID := "out", protocol := protocolTCP, width := 1 }]

theorem deltaStream_outsideEdge : ¬ ∀ (ticks : List (Tick Int)) (t : Tick Int),
    (∀ t' ∈ ticks ++ [t], t'.view.Distinct) → (ticks ++ [t]).head?.map Tick.full = some true →
    Replicates (Run.exec deltaTick ({}, {}) (ticks ++ [t])).2 t.view := by
  intro h
  have hid : ∀ i j, String.ofList (List.replicate i 'h') = String.ofList (List.replicate j 'h') →
      i = j := by
    intro i j he
    have hlen := congrArg List.length (String.ofList_injective he)
    rwa [List.length_replicate, List.length_replicate] at hlen
  have hd : crowdedView.Distinct := by
    refine ⟨?_, by decide⟩
    rw [crowdedView, List.map_map]
    exact List.nodup_range.map fun i j he => hid i j he
  have hout : ¬ Within crowdedView.nodes
      { id := "h<->out", fromID := "h", toID := "out", protocol := protocolTCP, width := 1 } := by
    rintro ⟨-, hto⟩
    rw [crowdedView, List.map_map] at hto
    obtain ⟨i, -, hi⟩ := List.mem_map.mp hto
    have hchars := congrArg String.toList hi
    simp only [Function.comp_apply, String.toList_ofList] at hchars
    have hmem : 'o' ∈ List.replicate i 'h' := hchars ▸ by decide
    exact absurd (List.eq_of_mem_replicate hmem) (by decide)
  obtain ⟨e, he⟩ : ∃ e, (deltaTick ({}, {}) { view := crowdedView, full := true }).2.edges.lookup
      "h<->out" = some e := ((h [] { view := crowdedView, full := true } (by simpa using hd) rfl).edgeIDs
    "h<->out").mpr (by decide)
  have hdrop := chunkedFull_drops (s := ({}, {})) (t := { view := crowdedView, full := true }) hd rfl
    (by simp [crowdedView]) (List.mem_singleton_self _) hout rfl
  exact Option.some_ne_none e (he.symm.trans hdrop)

end Etherchimp
