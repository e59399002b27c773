import Etherchimp.Graph.State

/-!
# Folding one node into another

`mergeNodeInto` is the only way an id disappears while its traffic lives on: the
node is moved or absorbed, every edge at the old id is re-keyed to canonical form
or folded into the edge already there, and the lookups are repointed.

The edge loop of the source edits the edges in place while it collects what to
delete and what to add, and the additions are pointers to edges still sitting
under their old key. Here such a pointer is that key, so an edge changed through
one name is changed under the other as well.
-/

namespace Etherchimp

variable [RuneCase]

/-- `existing` after taking over the counters of `edge`. -/
def absorbEdge (existing edge : Edge) : Edge :=
  { existing with
    packetCount := existing.packetCount + edge.packetCount
    byteCount := existing.byteCount + edge.byteCount
    forwardPackets := existing.forwardPackets + edge.forwardPackets
    reversePackets := existing.reversePackets + edge.reversePackets
    forwardBytes := existing.forwardBytes + edge.forwardBytes
    reverseBytes := existing.reverseBytes + edge.reverseBytes
    lastSeen := if existing.lastSeen < edge.lastSeen then edge.lastSeen else existing.lastSeen }

/-- `node` after taking over the counters and addresses of `oldNode`. -/
def absorbNode (node oldNode : Node) : Node :=
  { node with
    packetCount := node.packetCount + oldNode.packetCount
    byteCount := node.byteCount + oldNode.byteCount
    ips := node.ips ++ oldNode.ips.filter fun ip => ip ∉ node.ips
    macs := node.macs ++ oldNode.macs.filter fun mc => mc ∉ node.macs }

/-- The id a lookup holding `id` is repointed to. -/
def repoint (newID oldID id : String) : String := if id = oldID then newID else id

/-- The state of the edge loop. -/
structure EdgeLoop where
  edges : KeyedMap String Edge
  edgesByNode : KeyedMap String (KeyedMap String Bool)
  edgesToDelete : List String
  /-- New edge id to the key its edge sits under. -/
  edgesToAdd : KeyedMap String String

/-- One iteration of the edge loop. -/
def rekeyEdge (newID oldID : String) (s : EdgeLoop) (edgeID : String) : EdgeLoop :=
  match s.edges.lookup edgeID with
  | none => s
  | some edge =>
      if edge.fromID ≠ oldID ∧ edge.toID ≠ oldID then s
      else
        let newFrom := repoint newID oldID edge.fromID
        let newTo := repoint newID oldID edge.toID
        -- a self-loop made by the merge is dropped
        if newFrom = newTo then
          { s with
            edgesByNode := Manager.unindexEdgeLocked s.edgesByNode edge
            edgesToDelete := s.edgesToDelete ++ [edgeID] }
        else
          let (newEdgeID, canonicalFrom, canonicalTo) := getCanonicalEdgeID newFrom newTo
          if newEdgeID = edgeID then s
          else
            let s := { s with
              edgesByNode := Manager.unindexEdgeLocked s.edgesByNode edge
              edgesToDelete := s.edgesToDelete ++ [edgeID] }
            match s.edges.lookup newEdgeID with
            | some existing =>
                { s with edges := s.edges.insert newEdgeID (absorbEdge existing edge) }
            | none =>
                match s.edgesToAdd.lookup newEdgeID with
                | some key => { s with edges := s.edges.adjust key (absorbEdge · edge) }
                | none =>
                    { s with
                      edges := s.edges.insert edgeID
                        { edge with id := newEdgeID, fromID := canonicalFrom, toID := canonicalTo }
                      edgesToAdd := s.edgesToAdd.insert newEdgeID edgeID }

/-- Put one collected edge under its new id. -/
def addRekeyed (loop s : EdgeLoop) (e : Sigma fun _ : String => String) : EdgeLoop :=
  match loop.edges.lookup e.2 with
  | none => s
  | some edge =>
      { s with
        edges := s.edges.insert e.1 edge
        edgesByNode := Manager.indexEdgeLocked s.edgesByNode edge }

/-- The loop over all edges, then the deletions, then the additions. -/
def mergeEdges (newID oldID : String) (edges : KeyedMap String Edge)
    (idx : KeyedMap String (KeyedMap String Bool)) : EdgeLoop :=
  let loop := edges.keys.foldl (rekeyEdge newID oldID) ⟨edges, idx, [], ∅⟩
  let s := { loop with edges := loop.edges.eraseAll loop.edgesToDelete }
  loop.edgesToAdd.entries.foldl (addRekeyed loop) s

/-- Move the old node to the new id, or absorb it into the node already there. -/
def mergeNodes (nodes : KeyedMap String Node) (newID oldID hostname : String) :
    KeyedMap String Node :=
  match nodes.lookup oldID with
  | none => nodes
  | some oldNode =>
      match nodes.lookup newID with
      | none => (nodes.insert newID { oldNode with ip := newID, hostname := hostname }).erase oldID
      | some node => (nodes.insert newID (absorbNode node oldNode)).erase oldID

/-- Fold `oldID`'s node and all its edges into `newID`. -/
def Manager.mergeNodeInto (m : Manager) (newID oldID hostname : String) : Manager :=
  let loop := mergeEdges newID oldID m.edges m.edgesByNode
  { m with
    nodes := (mergeNodes m.nodes newID oldID hostname).adjust newID rebuildSearchCorpusLocked
    edges := loop.edges
    edgesByNode := loop.edgesByNode
    ipToNodeID := m.ipToNodeID.mapVal (repoint newID oldID)
    macToNodeID := m.macToNodeID.mapVal (repoint newID oldID) }

/-! ## What a merge does to the nodes and the lookups -/

/-- The node a merge leaves under the new id. -/
def mergedNode (newID hostname : String) : Option Node → Option Node → Option Node
  | none, none => none
  | none, some oldNode =>
      some (rebuildSearchCorpusLocked { oldNode with ip := newID, hostname := hostname })
  | some node, none => some (rebuildSearchCorpusLocked node)
  | some node, some oldNode => some (rebuildSearchCorpusLocked (absorbNode node oldNode))

/-- The merged node holds exactly the addresses of the two. -/
theorem mem_mergedNode_ips {newID hostname : String} {x y : Option Node} {n : Node}
    (h : mergedNode newID hostname x y = some n) (ip : String) :
    ip ∈ n.ips ↔ (∃ n₁, x = some n₁ ∧ ip ∈ n₁.ips) ∨ ∃ n₂, y = some n₂ ∧ ip ∈ n₂.ips := by
  cases x with
  | none =>
    cases y with
    | none => cases h
    | some o => cases h; simp
  | some n₁ =>
    cases y with
    | none => cases h; simp
    | some o =>
      cases h
      simp only [rebuild_ips, absorbNode, List.mem_append, List.mem_filter, decide_eq_true_eq,
        Option.some.injEq, exists_eq_left']
      by_cases hm : ip ∈ n₁.ips <;> simp [hm]

/-- There is a merged node exactly when there was one of the two. -/
theorem mergedNode_eq_none {newID hostname : String} {x y : Option Node} :
    mergedNode newID hostname x y = none ↔ x = none ∧ y = none := by
  cases x <;> cases y <;> simp [mergedNode]

/-- The merged node is stored under its id. -/
theorem mergedNode_ip {newID hostname : String} {x y : Option Node} {n : Node}
    (hx : ∀ n₁, x = some n₁ → n₁.ip = newID) (h : mergedNode newID hostname x y = some n) :
    n.ip = newID := by
  cases x with
  | none =>
    cases y with
    | none => cases h
    | some o => cases h; rfl
  | some n₁ =>
    have h1 := hx n₁ rfl
    cases y with
    | none => cases h; exact h1
    | some o => cases h; exact h1

namespace Manager

variable {m : Manager} {newID oldID hostname : String}

theorem mergeNodeInto_nodes (hne : oldID ≠ newID) (k : String) :
    (m.mergeNodeInto newID oldID hostname).nodes.lookup k
      = if k = oldID then none
        else if k = newID then mergedNode newID hostname (m.nodes.lookup newID) (m.nodes.lookup oldID)
        else m.nodes.lookup k := by
  show ((mergeNodes m.nodes newID oldID hostname).adjust newID _).lookup k = _
  rw [KeyedMap.lookup_adjust]
  unfold mergeNodes
  cases ho : m.nodes.lookup oldID with
  | none =>
    by_cases hk : k = newID
    · subst hk
      rw [if_pos rfl, if_neg (fun h => hne h.symm), if_pos rfl]
      cases m.nodes.lookup k <;> rfl
    · rw [if_neg hk]
      by_cases hko : k = oldID
      · subst hko; rw [if_pos rfl, ho]
      · rw [if_neg hko, if_neg hk]
  | some oldNode =>
    cases hn : m.nodes.lookup newID <;> dsimp only <;>
      rw [KeyedMap.lookup_erase_eq, KeyedMap.lookup_insert_eq]
    all_goals
      by_cases hko : k = oldID
      · subst hko; rw [if_pos rfl, if_pos rfl, if_neg hne]
      · rw [if_neg hko, if_neg hko]
        by_cases hk : k = newID
        · subst hk; rw [if_pos rfl, if_pos rfl, if_pos rfl]; rfl
        · rw [if_neg hk, if_neg hk, if_neg hk]

theorem mergeNodeInto_ipToNodeID (ip : String) :
    (m.mergeNodeInto newID oldID hostname).ipToNodeID.lookup ip
      = (m.ipToNodeID.lookup ip).map (repoint newID oldID) :=
  KeyedMap.lookup_mapVal ..

theorem mergeNodeInto_macToNodeID (mac : String) :
    (m.mergeNodeInto newID oldID hostname).macToNodeID.lookup mac
      = (m.macToNodeID.lookup mac).map (repoint newID oldID) :=
  KeyedMap.lookup_mapVal ..

@[simp] theorem mergeNodeInto_hostnameToNodeID :
    (m.mergeNodeInto newID oldID hostname).hostnameToNodeID = m.hostnameToNodeID := rfl

@[simp] theorem mergeNodeInto_macShared :
    (m.mergeNodeInto newID oldID hostname).macShared = m.macShared := rfl

@[simp] theorem mergeNodeInto_macActiveWindow :
    (m.mergeNodeInto newID oldID hostname).macActiveWindow = m.macActiveWindow := rfl

end Manager

end Etherchimp
