import Etherchimp.Server.Client

/-!
# A full snapshot in chunks

`splitDelta` cuts the nodes of a full snapshot into runs of `fullChunkSize`, and an
edge rides the chunk by which both its endpoints are out. So the chunks together
hold every node, and every edge between two of them; an edge to a node outside the
snapshot is dropped.
-/

namespace Etherchimp

variable {F : Type}

/-! ## Changing one element of a list -/

section Modify

variable {α β : Type} {f : α → β} {g : α → α} {h : β → β}

theorem map_modify (hc : ∀ x, f (g x) = h (f x)) (l : List α) (i : Nat) :
    (l.modify i g).map f = (l.map f).modify i h := by
  induction l generalizing i with
  | nil => simp
  | cons x l ih =>
    cases i with
    | zero => simp [hc]
    | succ i => simp [ih]

theorem map_modify_same (hc : ∀ x, f (g x) = f x) (l : List α) (i : Nat) :
    (l.modify i g).map f = l.map f := by
  rw [map_modify (h := id) hc, List.modify_id]

theorem flatten_modify_append (ls : List (List β)) {i : Nat} (hi : i < ls.length) (b : β) :
    (ls.modify i fun l => l ++ [b]).flatten.Perm (ls.flatten ++ [b]) := by
  induction ls generalizing i with
  | nil => cases hi
  | cons l ls ih =>
    cases i with
    | zero =>
      rw [List.modify_zero_cons, List.flatten_cons, List.flatten_cons, List.append_assoc,
        List.append_assoc]
      exact List.perm_append_comm.append_left l
    | succ i =>
      rw [List.modify_succ_cons, List.flatten_cons, List.flatten_cons, List.append_assoc]
      exact (ih (Nat.lt_of_succ_lt_succ hi)).append_left l

/-- Runs of `s` elements put back together. -/
theorem flatten_runs (l : List α) (s n : Nat) :
    ((List.range n).map fun i => (l.drop (i * s)).take s).flatten = l.take (n * s) := by
  induction n with
  | zero => simp
  | succ n ih =>
    rw [List.range_succ, List.map_append, List.flatten_append, ih, Nat.succ_mul, List.take_add]
    simp

end Modify

/-! ## Where an edge goes -/

/-- Every endpoint is a listed node. -/
def Within (nodes : List (ViewNode F)) (e : ViewEdge F) : Prop :=
  e.fromID ∈ nodes.map ViewNode.id ∧ e.toID ∈ nodes.map ViewNode.id

instance (nodes : List (ViewNode F)) (e : ViewEdge F) : Decidable (Within nodes e) := by
  unfold Within; infer_instance

/-- The chunk each id rides in. -/
theorem chunkOf_spec (nodes : List (ViewNode F)) (id : String) :
    (id ∈ nodes.map ViewNode.id ↔ ∃ i, (chunkOf nodes).lookup id = some i)
      ∧ ∀ i, (chunkOf nodes).lookup id = some i →
          i < (nodes.length + fullChunkSize - 1) / fullChunkSize := by
  unfold chunkOf
  induction nodes using List.reverseRecOn with
  | nil => exact ⟨by simp, fun i hi => by cases hi⟩
  | append_singleton nodes n ih =>
    rw [List.zipIdx_append, List.foldl_append, Nat.zero_add]
    simp only [List.zipIdx_cons, List.zipIdx_nil, List.foldl_cons, List.foldl_nil,
      KeyedMap.lookup_insert_eq]
    have hlast : nodes.length / fullChunkSize
        < ((nodes ++ [n]).length + fullChunkSize - 1) / fullChunkSize := by
      rw [List.length_append, List.length_singleton]
      unfold fullChunkSize
      omega
    by_cases hid : id = n.id
    · subst hid
      simp only [if_pos, Option.some.injEq]
      refine ⟨?_, ?_⟩
      · simp
      · rintro i rfl
        exact hlast
    · rw [if_neg hid]
      refine ⟨?_, fun i hi => ?_⟩
      · rw [← ih.1]
        simp [hid]
      · refine Nat.lt_of_lt_of_le (ih.2 i hi) (Nat.div_le_div_right ?_)
        rw [List.length_append]
        omega

/-- Placing an edge touches nothing but the edges of one chunk. -/
theorem placeEdge_map {β : Type} (chunkOf : KeyedMap String Nat) (f : ViewDelta F → β)
    (hf : ∀ (c : ViewDelta F) e, f { c with edges := c.edges ++ [e] } = f c)
    (edges : List (ViewEdge F)) (chunks : List (ViewDelta F)) :
    (edges.foldl (placeEdge chunkOf) chunks).map f = chunks.map f := by
  induction edges generalizing chunks with
  | nil => rfl
  | cons e edges ih =>
    rw [List.foldl_cons, ih]
    unfold placeEdge
    split
    · exact map_modify_same (fun c => hf c e) _ _
    · rfl

/-- Every edge between known ids is in some chunk, once. -/
theorem placeEdge_edges (nodes : List (ViewNode F)) (edges : List (ViewEdge F)) (chunks : List (ViewDelta F))
    (hlen : chunks.length = (nodes.length + fullChunkSize - 1) / fullChunkSize) :
    ((edges.foldl (placeEdge (chunkOf nodes)) chunks).map ViewDelta.edges).flatten.Perm
      ((chunks.map ViewDelta.edges).flatten ++ edges.filter fun e => Within nodes e) := by
  induction edges generalizing chunks with
  | nil => simp
  | cons e edges ih =>
    have hfrom := chunkOf_spec nodes e.fromID
    have hto := chunkOf_spec nodes e.toID
    rw [List.foldl_cons, List.filter_cons]
    cases hf : (chunkOf nodes).lookup e.fromID with
    | none =>
      have hout : ¬ Within nodes e := fun hw => by
        obtain ⟨i, hi⟩ := hfrom.1.mp hw.1
        rw [hf] at hi
        cases hi
      have hplace : placeEdge (chunkOf nodes) chunks e = chunks := by
        unfold placeEdge
        rw [hf]
      rw [hplace, decide_eq_false hout]
      exact ih chunks hlen
    | some i =>
      cases ht : (chunkOf nodes).lookup e.toID with
      | none =>
        have hout : ¬ Within nodes e := fun hw => by
          obtain ⟨j, hj⟩ := hto.1.mp hw.2
          rw [ht] at hj
          cases hj
        have hplace : placeEdge (chunkOf nodes) chunks e = chunks := by
          unfold placeEdge
          rw [hf, ht]
        rw [hplace, decide_eq_false hout]
        exact ih chunks hlen
      | some j =>
        have hin : Within nodes e := ⟨hfrom.1.mpr ⟨i, hf⟩, hto.1.mpr ⟨j, ht⟩⟩
        have hplace : placeEdge (chunkOf nodes) chunks e
            = chunks.modify (if i < j then j else i) fun c => { c with edges := c.edges ++ [e] } := by
          unfold placeEdge
          rw [hf, ht]
        have hlt : (if i < j then j else i) < (chunks.map ViewDelta.edges).length := by
          rw [List.length_map, hlen]
          split
          · exact hto.2 j ht
          · exact hfrom.2 i hf
        rw [hplace, decide_eq_true hin, if_pos rfl]
        refine (ih _ ?_).trans ?_
        · rw [List.length_modify, hlen]
        · rw [map_modify (h := fun l => l ++ [e]) fun _ => rfl]
          refine ((flatten_modify_append _ hlt e).append_right _).trans ?_
          rw [List.append_assoc, List.singleton_append]

/-! ## What the messages hold together -/

/-- What one split delivers, whatever the number of messages. -/
structure Delivers (d : ViewDelta F) (msgs : List (ViewDelta F)) : Prop where
  nodes : (msgs.map ViewDelta.nodes).flatten = d.nodes
  edges : (msgs.map ViewDelta.edges).flatten.Perm
    (if d.isFull ∧ fullChunkSize < d.nodes.length then d.edges.filter fun e => Within d.nodes e
      else d.edges)
  removedNodes : (msgs.map ViewDelta.removedNodes).flatten = d.removedNodes
  removedEdges : (msgs.map ViewDelta.removedEdges).flatten = d.removedEdges

/-- Either one message that is complete, or a full one and then parts, the last complete. -/
def Framed (d : ViewDelta F) (msgs : List (ViewDelta F)) : Prop :=
  (∃ m, msgs = [m] ∧ m.isFull = d.isFull ∧ m.isPartial = d.isPartial ∧ m.fullDone = d.isFull)
    ∨ (d.isFull = true ∧ ∃ k, msgs.map ViewDelta.isFull = true :: List.replicate (k + 1) false
      ∧ msgs.map ViewDelta.isPartial = List.replicate (k + 2) true
      ∧ msgs.map ViewDelta.fullDone = List.replicate (k + 1) false ++ [true])

theorem modify_replicate_last {α : Type} (a b : α) (n : Nat) :
    (List.replicate (n + 1) a).modify n (fun _ => b) = List.replicate n a ++ [b] := by
  induction n with
  | zero => rfl
  | succ n ih =>
    rw [List.replicate_succ, List.modify_succ_cons, ih, List.replicate_succ, List.cons_append]

/-- **What the messages of one delta carry**, and how they are marked. -/
theorem splitDelta_spec (d : ViewDelta F) :
    Delivers d (splitDelta d) ∧ Framed d (splitDelta d) := by
  unfold splitDelta
  by_cases hc : ¬ d.isFull ∨ d.nodes.length ≤ fullChunkSize
  · rw [if_pos hc]
    refine ⟨⟨by simp, ?_, by simp, by simp⟩, Or.inl ⟨_, rfl, rfl, rfl, rfl⟩⟩
    rw [if_neg fun h => hc.elim (fun hn => hn h.1) fun hn => by omega]
    simp
  · rw [if_neg hc]
    rw [not_or, not_not] at hc
    obtain ⟨hfull, hlen⟩ := hc
    dsimp only
    have hlen : fullChunkSize < d.nodes.length := by omega
    -- more than one chunk
    obtain ⟨k, hk⟩ : ∃ k, (d.nodes.length + fullChunkSize - 1) / fullChunkSize = k + 2 := by
      refine ⟨(d.nodes.length + fullChunkSize - 1) / fullChunkSize - 2, ?_⟩
      unfold fullChunkSize at hlen ⊢
      omega
    rw [hk]
    have hmap : ∀ {β : Type} (f : ViewDelta F → β) (i : Nat) (l : List (ViewDelta F)),
        (∀ c : ViewDelta F, f { c with fullDone := true } = f c) →
        (l.modify i fun last => { last with fullDone := true }).map f = l.map f :=
      fun f i l hf => map_modify_same hf l i
    constructor
    · constructor
      · rw [hmap _ _ _ fun _ => rfl, map_modify_same fun _ => by rfl,
          placeEdge_map _ _ fun _ _ => by rfl, List.map_map, Function.comp_def]
        rw [flatten_runs, List.take_of_length_le]
        unfold fullChunkSize at hk ⊢
        omega
      · rw [if_pos ⟨hfull, hlen⟩, hmap _ _ _ fun _ => rfl, map_modify_same fun _ => by rfl]
        refine (placeEdge_edges d.nodes d.edges _ ?_).trans ?_
        · rw [List.length_map, List.length_range, hk]
        · rw [List.map_map, Function.comp_def]
          simp
      · rw [hmap _ _ _ fun _ => rfl, map_modify (h := fun _ => d.removedNodes) fun _ => by rfl,
          placeEdge_map _ _ fun _ _ => by rfl, List.map_map, Function.comp_def]
        simp [List.range_succ_eq_map]
      · rw [hmap _ _ _ fun _ => rfl, map_modify (h := fun _ => d.removedEdges) fun _ => by rfl,
          placeEdge_map _ _ fun _ _ => by rfl, List.map_map, Function.comp_def]
        simp [List.range_succ_eq_map]
    · refine Or.inr ⟨hfull, k, ?_, ?_, ?_⟩
      · rw [hmap _ _ _ fun _ => rfl, map_modify (h := fun _ => true) fun _ => by rfl,
          placeEdge_map _ _ fun _ _ => by rfl, List.map_map, Function.comp_def, List.map_const',
          List.length_range, List.replicate_succ, List.modify_zero_cons]
      · rw [hmap _ _ _ fun _ => rfl, map_modify (h := fun _ => true) fun _ => by rfl,
          placeEdge_map _ _ fun _ _ => by rfl, List.map_map, Function.comp_def, List.map_const',
          List.length_range, List.replicate_succ, List.modify_zero_cons, ← List.replicate_succ]
      · rw [map_modify (h := fun _ => true) fun _ => by rfl, map_modify_same fun _ => by rfl,
          placeEdge_map _ _ fun _ _ => by rfl, List.map_map, Function.comp_def, List.map_const',
          List.length_range]
        exact modify_replicate_last false true (k + 1)

/-- Only the first message removes anything. -/
theorem splitDelta_tail (d : ViewDelta F) :
    ∀ m ∈ (splitDelta d).tail, m.removedNodes = [] ∧ m.removedEdges = [] := by
  have hmap : ∃ n, (splitDelta d).map (fun m => (m.removedNodes, m.removedEdges))
      = (d.removedNodes, d.removedEdges) :: List.replicate n ([], []) := by
    unfold splitDelta
    split
    · exact ⟨0, rfl⟩
    · rename_i hc
      rw [not_or, not_le] at hc
      obtain ⟨k, hk⟩ : ∃ k, (d.nodes.length + fullChunkSize - 1) / fullChunkSize = k + 1 := by
        refine ⟨(d.nodes.length + fullChunkSize - 1) / fullChunkSize - 1, ?_⟩
        have hlen := hc.2
        unfold fullChunkSize at hlen ⊢
        omega
      refine ⟨k, ?_⟩
      dsimp only
      rw [hk, map_modify_same fun _ => by rfl,
        map_modify (h := fun _ => (d.removedNodes, d.removedEdges)) fun _ => by rfl,
        placeEdge_map _ _ fun _ _ => by rfl, List.map_map]
      show ((List.range (k + 1)).map fun _ => (([], []) : List String × List String)).modify 0 _ = _
      rw [List.map_const', List.length_range, List.replicate_succ, List.modify_zero_cons]
  obtain ⟨n, hn⟩ := hmap
  intro m hm
  have hin : (m.removedNodes, m.removedEdges) ∈ List.replicate n (([], []) : List String × List String) := by
    have htail := congrArg List.tail hn
    rw [← List.map_tail, List.tail_cons] at htail
    exact htail ▸ List.mem_map_of_mem hm
  exact Prod.mk.inj (List.eq_of_mem_replicate hin)


/-! ## Message by message -/

/-- The chunk by which both endpoints of an edge are out. -/
def rideOf (chunkOf : KeyedMap String Nat) (e : ViewEdge F) : Option Nat :=
  match chunkOf.lookup e.fromID, chunkOf.lookup e.toID with
  | some i, some j => some (max i j)
  | _, _ => none

theorem placeEdge_eq (chunkOf : KeyedMap String Nat) (chunks : List (ViewDelta F))
    (e : ViewEdge F) (i : Nat) :
    (placeEdge chunkOf chunks e)[i]?
      = chunks[i]?.map fun c =>
          { c with edges := c.edges ++ [e].filter fun e => rideOf chunkOf e = some i } := by
  unfold placeEdge rideOf
  cases hf : chunkOf.lookup e.fromID with
  | none => simp [hf]
  | some a =>
    cases ht : chunkOf.lookup e.toID with
    | none => simp [hf, ht]
    | some b =>
      have hmax : (if a < b then b else a) = max a b := by
        rcases Nat.lt_or_ge a b with h | h
        · rw [if_pos h, Nat.max_eq_right (Nat.le_of_lt h)]
        · rw [if_neg (Nat.not_lt.mpr h), Nat.max_eq_left h]
      dsimp only
      rw [hmax, List.getElem?_modify]
      by_cases hi : max a b = i
      · simp [hf, ht, hi]
      · simp [hf, ht, hi]

/-- The edges of a chunk are those that ride it, in the order of the snapshot. -/
theorem placeEdges_getElem (chunkOf : KeyedMap String Nat) (edges : List (ViewEdge F))
    (chunks : List (ViewDelta F)) (i : Nat) :
    (edges.foldl (placeEdge chunkOf) chunks)[i]?
      = chunks[i]?.map fun c =>
          { c with edges := c.edges ++ edges.filter fun e => rideOf chunkOf e = some i } := by
  induction edges generalizing chunks with
  | nil => simp
  | cons e edges ih =>
    rw [List.foldl_cons, ih, placeEdge_eq, Option.map_map]
    congr 1
    funext c
    simp only [Function.comp_apply, List.append_assoc]
    rw [← List.filter_append, List.singleton_append]

def chunkCount (d : ViewDelta F) : Nat := (d.nodes.length + fullChunkSize - 1) / fullChunkSize

/-- What a message carries besides nodes, edges and its marks. -/
def ViewDelta.rest (d : ViewDelta F) :
    List String × List String × List TrafficFlow × List (SubnetIsland F)
      × Option (KeyedMap String Nat) × Option ViewStats :=
  (d.removedNodes, d.removedEdges, d.trafficFlows, d.subnetIslands, d.protocolStats, d.stats)

/-- One chunk, field by field. -/
structure Chunk (d : ViewDelta F) (i : Nat) (m : ViewDelta F) : Prop where
  nodes : m.nodes = (d.nodes.drop (i * fullChunkSize)).take fullChunkSize
  edges : m.edges = d.edges.filter fun e => rideOf (chunkOf d.nodes) e = some i
  rest : m.rest = if i = 0 then d.rest else ({} : ViewDelta F).rest
  isFull : m.isFull = true ↔ i = 0
  isPartial : m.isPartial = true
  fullDone : m.fullDone = true ↔ i + 1 = chunkCount d

theorem splitDelta_chunk {d : ViewDelta F} (hfull : d.isFull = true)
    (hlen : fullChunkSize < d.nodes.length) :
    (splitDelta d).length = chunkCount d
      ∧ ∀ i m, (splitDelta d)[i]? = some m → Chunk d i m := by
  have hcount : 1 < chunkCount d := by
    unfold chunkCount
    unfold fullChunkSize at hlen ⊢
    omega
  unfold splitDelta
  rw [if_neg (by rw [not_or, not_not]; exact ⟨hfull, by omega⟩)]
  dsimp only
  have hn : (d.nodes.length + fullChunkSize - 1) / fullChunkSize = chunkCount d := rfl
  rw [hn]
  have hfold : ∀ chunks : List (ViewDelta F),
      (d.edges.foldl (placeEdge (chunkOf d.nodes)) chunks).length = chunks.length := by
    intro chunks
    have := congrArg List.length (placeEdge_map (chunkOf d.nodes) (fun _ => ())
      (fun _ _ => rfl) d.edges chunks)
    rwa [List.length_map, List.length_map] at this
  refine ⟨?_, fun i m hm => ?_⟩
  · rw [List.length_modify, List.length_modify, hfold, List.length_map, List.length_range]
  · rw [List.getElem?_modify, List.getElem?_modify, placeEdges_getElem, List.getElem?_map] at hm
    have hi : i < chunkCount d := by
      by_contra hge
      rw [List.getElem?_eq_none (by rw [List.length_range]; exact Nat.not_lt.mp hge)] at hm
      cases hm
    rw [List.getElem?_range hi] at hm
    simp only [Option.map_eq_map, Option.map_some, Option.some.injEq] at hm
    -- the first chunk is given the rest, the last one is marked
    by_cases hfirst : i = 0
    · subst hfirst
      have hlast : chunkCount d - 1 ≠ 0 := by omega
      rw [if_pos rfl, if_neg hlast] at hm
      subst hm
      exact
        { nodes := rfl
          edges := rfl
          rest := rfl
          isFull := by simp
          isPartial := rfl
          fullDone := by simp; omega }
    · rw [if_neg (Ne.symm hfirst)] at hm
      by_cases hlast : chunkCount d - 1 = i
      · rw [if_pos hlast] at hm
        subst hm
        exact
          { nodes := rfl
            edges := rfl
            rest := by rw [if_neg hfirst]; rfl
            isFull := by simp [hfirst]
            isPartial := rfl
            fullDone := by simp; omega }
      · rw [if_neg hlast] at hm
        subst hm
        exact
          { nodes := rfl
            edges := rfl
            rest := by rw [if_neg hfirst]; rfl
            isFull := by simp [hfirst]
            isPartial := rfl
            fullDone := by simp; omega }

/-- With distinct ids the node at `k` rides chunk `k / fullChunkSize`. -/
theorem chunkOf_lookup {nodes : List (ViewNode F)} (hids : (nodes.map ViewNode.id).Nodup)
    {k : Nat} {n : ViewNode F} (hn : nodes[k]? = some n) :
    (chunkOf nodes).lookup n.id = some (k / fullChunkSize) := by
  unfold chunkOf
  induction nodes using List.reverseRecOn with
  | nil => cases hn
  | append_singleton nodes x ih =>
    rw [List.map_append, List.nodup_append] at hids
    rw [List.zipIdx_append, List.foldl_append, Nat.zero_add]
    simp only [List.zipIdx_cons, List.zipIdx_nil, List.foldl_cons, List.foldl_nil,
      KeyedMap.lookup_insert_eq]
    rcases Nat.lt_trichotomy k nodes.length with hk | hk | hk
    · rw [List.getElem?_append_left hk] at hn
      have hne : n.id ≠ x.id :=
        hids.2.2 n.id (List.mem_map_of_mem (List.mem_of_getElem? hn)) x.id (by simp)
      rw [if_neg hne]
      exact ih hids.1 hn
    · subst hk
      rw [List.getElem?_append_right (Nat.le_refl _), Nat.sub_self] at hn
      cases hn
      rw [if_pos rfl]
    · rw [List.getElem?_eq_none (by rw [List.length_append, List.length_singleton]; omega)] at hn
      cases hn

/-- A chunk that carries a node is the one the node rides. -/
theorem Chunk.lookup {d m : ViewDelta F} {i : Nat} (h : Chunk d i m)
    (hids : (d.nodes.map ViewNode.id).Nodup) {id : String} (hid : id ∈ m.nodes.map ViewNode.id) :
    (chunkOf d.nodes).lookup id = some i := by
  obtain ⟨n, hn, rfl⟩ := List.mem_map.mp hid
  rw [h.nodes] at hn
  obtain ⟨k, hk⟩ := List.mem_iff_getElem?.mp hn
  have hlt : k < fullChunkSize := by
    have := (List.getElem?_eq_some_iff.mp hk).1
    rw [List.length_take] at this
    omega
  rw [List.getElem?_take, if_pos hlt, List.getElem?_drop] at hk
  have hpos : 0 < fullChunkSize := by decide
  rw [chunkOf_lookup hids hk, Nat.add_comm, Nat.add_mul_div_right _ _ hpos,
    Nat.div_eq_of_lt hlt, Nat.zero_add]

/-- An edge between listed nodes rides one chunk, and never one before an endpoint's. -/
theorem rideOf_within {nodes : List (ViewNode F)} {e : ViewEdge F} (h : Within nodes e) :
    ∃ i < (nodes.length + fullChunkSize - 1) / fullChunkSize,
      rideOf (chunkOf nodes) e = some i
        ∧ ∀ id ∈ [e.fromID, e.toID], ∀ j, (chunkOf nodes).lookup id = some j → j ≤ i := by
  obtain ⟨a, ha⟩ := (chunkOf_spec nodes e.fromID).1.mp h.1
  obtain ⟨b, hb⟩ := (chunkOf_spec nodes e.toID).1.mp h.2
  have hla := (chunkOf_spec nodes e.fromID).2 a ha
  have hlb := (chunkOf_spec nodes e.toID).2 b hb
  refine ⟨max a b, by omega, ?_, ?_⟩
  · unfold rideOf
    rw [ha, hb]
  · intro id hid j hj
    rw [List.mem_cons, List.mem_singleton] at hid
    rcases hid with rfl | rfl
    · rw [ha] at hj
      cases hj
      exact Nat.le_max_left _ _
    · rw [hb] at hj
      cases hj
      exact Nat.le_max_right _ _

open Classical in
/--
**What a client is sent of a full snapshot**: all its nodes in order, each edge between
two of them in one message and not before its endpoints, and one message at each end
that is marked.
-/
structure SentInFull (d : ViewDelta F) (msgs : List (ViewDelta F)) : Prop where
  nodes : (msgs.map ViewDelta.nodes).flatten = d.nodes
  edge_once : ∀ e ∈ d.edges, Within d.nodes e → ∃ (i : Nat) (m : ViewDelta F), msgs[i]? = some m
    ∧ m.edges.count e = d.edges.count e
    ∧ ∀ (j : Nat) (m' : ViewDelta F), msgs[j]? = some m' → (e ∈ m'.edges → j = i)
      ∧ (e.fromID ∈ m'.nodes.map ViewNode.id ∨ e.toID ∈ m'.nodes.map ViewNode.id → j ≤ i)
  edge_order : ∀ m ∈ msgs, m.edges.Sublist d.edges
  isFull : ∀ (i : Nat) (m : ViewDelta F), msgs[i]? = some m → (m.isFull = true ↔ i = 0)
  fullDone : ∀ (i : Nat) (m : ViewDelta F), msgs[i]? = some m →
    (m.fullDone = true ↔ i + 1 = msgs.length)
  isPartial : d.isPartial = false →
    ((∀ m ∈ msgs, m.isPartial = true) ↔ 1 < msgs.length)
  rest : msgs.map ViewDelta.rest
    = d.rest :: List.replicate (msgs.length - 1) ({} : ViewDelta F).rest

/-- A snapshot of one message. -/
theorem sentInFull_single {d : ViewDelta F} (hfull : d.isFull = true) :
    SentInFull d [{ d with fullDone := d.isFull }] := by
  have hzero : ∀ {i : Nat} {m : ViewDelta F},
      [{ d with fullDone := d.isFull }][i]? = some m → i = 0 ∧ m = { d with fullDone := d.isFull } := by
    intro i m hm
    rw [List.getElem?_singleton] at hm
    split at hm
    · rename_i hi
      exact ⟨hi, (Option.some.inj hm).symm⟩
    · cases hm
  exact
    { nodes := by simp
      edge_once := fun e he hw => by
        refine ⟨0, _, rfl, rfl, fun j m' hj => ?_⟩
        have hj0 := (hzero hj).1
        exact ⟨fun _ => hj0, fun _ => by omega⟩
      edge_order := fun m hm => by
        rw [List.mem_singleton] at hm
        subst hm
        exact List.Sublist.refl _
      isFull := fun i m hm => by
        obtain ⟨hi, rfl⟩ := hzero hm
        simp [hi, hfull]
      fullDone := fun i m hm => by
        obtain ⟨hi, rfl⟩ := hzero hm
        simp [hi, hfull]
      isPartial := fun hp => by simp [hp]
      rest := rfl }

/-- A snapshot of several. -/
theorem sentInFull_chunks {d : ViewDelta F} (hfull : d.isFull = true)
    (hlen : fullChunkSize < d.nodes.length) (hids : (d.nodes.map ViewNode.id).Nodup) :
    SentInFull d (splitDelta d) := by
  obtain ⟨hcount, hchunk⟩ := splitDelta_chunk hfull hlen
  have hmany : 1 < chunkCount d := by
    unfold chunkCount
    unfold fullChunkSize at hlen ⊢
    omega
  have hmem : ∀ m ∈ splitDelta d, ∃ i, Chunk d i m := fun m hm => by
    obtain ⟨i, hi⟩ := List.mem_iff_getElem?.mp hm
    exact ⟨i, hchunk i m hi⟩
  exact
    { nodes := (splitDelta_spec d).1.nodes
      edge_once := fun e he hw => by
        obtain ⟨i, hi, hride, hafter⟩ := rideOf_within hw
        obtain ⟨m, hm⟩ : ∃ m, (splitDelta d)[i]? = some m :=
          ⟨_, List.getElem?_eq_getElem (by rw [hcount]; exact hi)⟩
        refine ⟨i, m, hm, ?_, fun j m' hj => ⟨fun hin => ?_, fun hend => ?_⟩⟩
        · rw [(hchunk i m hm).edges]
          classical exact List.count_filter (decide_eq_true hride)
        · rw [(hchunk j m' hj).edges, List.mem_filter, decide_eq_true_eq, hride] at hin
          exact (Option.some.inj hin.2).symm
        · rcases hend with hend | hend
          · exact hafter _ (by simp) j ((hchunk j m' hj).lookup hids hend)
          · exact hafter _ (by simp) j ((hchunk j m' hj).lookup hids hend)
      edge_order := fun m hm => by
        obtain ⟨i, hi⟩ := hmem m hm
        rw [hi.edges]
        exact List.filter_sublist
      isFull := fun i m hm => (hchunk i m hm).isFull
      fullDone := fun i m hm => by rw [hcount]; exact (hchunk i m hm).fullDone
      isPartial := fun _ => by
        rw [hcount]
        refine ⟨fun _ => hmany, fun _ m hm => ?_⟩
        obtain ⟨i, hi⟩ := hmem m hm
        exact hi.isPartial
      rest := by
        rw [hcount]
        refine List.ext_getElem? fun i => ?_
        rw [List.getElem?_map]
        rcases Nat.lt_or_ge i (chunkCount d) with hi | hi
        · obtain ⟨m, hm⟩ : ∃ m, (splitDelta d)[i]? = some m :=
            ⟨_, List.getElem?_eq_getElem (by rw [hcount]; exact hi)⟩
          rw [hm, Option.map_some, (hchunk i m hm).rest]
          cases i with
          | zero => rfl
          | succ i =>
            rw [if_neg (Nat.succ_ne_zero i), List.getElem?_cons_succ,
              List.getElem?_replicate_of_lt (by omega)]
        · rw [List.getElem?_eq_none (by rw [hcount]; exact hi), Option.map_none,
            List.getElem?_eq_none (by rw [List.length_cons, List.length_replicate]; omega)] }

/-- **A chunked snapshot loses nothing**, and no edge comes before its nodes. -/
theorem splitDelta_sentInFull (d : ViewDelta F) (hfull : d.isFull = true)
    (hids : (d.nodes.map ViewNode.id).Nodup) : SentInFull d (splitDelta d) := by
  rcases Nat.lt_or_ge fullChunkSize d.nodes.length with hlen | hlen
  · exact sentInFull_chunks hfull hlen hids
  · have hone : splitDelta d = [{ d with fullDone := d.isFull }] := by
      unfold splitDelta
      rw [if_pos (Or.inr hlen)]
    rw [hone]
    exact sentInFull_single hfull

/-- A snapshot one node too long for one message, its two end nodes linked. -/
def twoChunks : ViewDelta Nat where
  nodes := (List.range 151).map fun i =>
    { id := String.ofList (List.replicate i 'a'), value := 0, x := 0, y := 0 }
  edges := [{
    id := "<->" ++ String.ofList (List.replicate 150 'a')
    fromID := ""
    toID := String.ofList (List.replicate 150 'a')
    protocol := { name := "TCP", color := "" }
    width := 0 }]
  isFull := true

theorem splitDelta_twoChunks : SentInFull twoChunks (splitDelta twoChunks) := by
  refine splitDelta_sentInFull twoChunks rfl ?_
  unfold twoChunks
  rw [List.map_map]
  refine List.Nodup.map (fun i j hij => ?_) List.nodup_range
  have hlen := congrArg String.length hij
  simpa using hlen

end Etherchimp
