import Etherchimp.Proof.Attribution
import Etherchimp.Proof.Path

/-!
# Which ids are nodes

An id becomes a node when an endpoint is counted there or a merge leads there, and
stops being one when a merge folds it away. One equation for each call says so,
leaving out what the node holds.
-/

namespace Etherchimp

open Manager

variable [RuneCase] {m m' : Manager} {newID oldID nodeID mac : String}

/-- Which ids are nodes after a merge. -/
theorem merge_exists_iff (m : Manager) (hostname : String) (hne : oldID ≠ newID) (k : String) :
    (∃ n, (m.mergeNodeInto newID oldID hostname).nodes.lookup k = some n)
      ↔ k ≠ oldID ∧ ((∃ n, m.nodes.lookup k = some n)
          ∨ (k = newID ∧ ∃ n, m.nodes.lookup oldID = some n)) := by
  rw [mergeNodeInto_nodes hne]
  by_cases hko : k = oldID
  · simp [hko]
  · rw [if_neg hko]
    by_cases hkn : k = newID
    · subst hkn
      rw [if_pos rfl, ← Option.ne_none_iff_exists', ne_eq, mergedNode_eq_none,
        ← Option.ne_none_iff_exists', ← Option.ne_none_iff_exists', not_and_or]
      simp [hko]
    · simp [hko, hkn]

omit [RuneCase] in
theorem NodesKept.exists_iff (h : NodesKept m m') (k : String) :
    (∃ n, m'.nodes.lookup k = some n) ↔ ∃ n, m.nodes.lookup k = some n := by
  rw [← Option.ne_none_iff_exists', ← Option.ne_none_iff_exists', ne_eq, ne_eq, h.lookup_none]

/-- A re-key to a MAC moves one id. -/
theorem promote_exists_iff (hp : m.Promotes nodeID mac) (k : String) :
    (∃ n, (m.promoteNodeIDToMAC nodeID mac).nodes.lookup k = some n)
      ↔ k ≠ nodeID ∧ ((∃ n, m.nodes.lookup k = some n) ∨ k = mac) := by
  obtain ⟨hostname, ht⟩ := promoteNodeIDToMAC_touched hp
  obtain ⟨-, hnm, -, -, -, node, hl, -⟩ := hp
  rw [ht.nodesKept.exists_iff, merge_exists_iff m hostname hnm]
  simp [hl]

/-- A demotion moves the MAC's id. -/
theorem demote_exists_iff (hd : m.Demotes mac newID) (k : String) :
    (∃ n, (m.demoteMACIdentity mac).nodes.lookup k = some n)
      ↔ k ≠ mac ∧ ((∃ n, m.nodes.lookup k = some n) ∨ k = newID) := by
  obtain ⟨hostname, ht⟩ := demoteMACIdentity_touched hd
  obtain ⟨⟨node, hl, -⟩, -, hnm⟩ := hd
  rw [ht.nodesKept.exists_iff, merge_exists_iff m hostname hnm.symm]
  simp [hl]

/-- The id that counting an endpoint folds into its node. -/
def FoldedBy (m : Manager) (ip nodeID k : String) : Prop :=
  m.ipToNodeID.lookup ip = some k ∧ k ≠ "" ∧ k ≠ nodeID

omit [RuneCase] in
theorem foldedBy_iff (m : Manager) (ip nodeID k : String) : FoldedBy m ip nodeID k
    ↔ k = (m.ipToNodeID.lookup ip).getD "" ∧ (m.ipToNodeID.lookup ip).getD "" ≠ ""
      ∧ (m.ipToNodeID.lookup ip).getD "" ≠ nodeID := by
  unfold FoldedBy
  cases m.ipToNodeID.lookup ip with
  | none => simp
  | some a =>
    simp only [Option.some.injEq, Option.getD_some]
    constructor
    · rintro ⟨rfl, h⟩
      exact ⟨rfl, h⟩
    · rintro ⟨rfl, h⟩
      exact ⟨rfl, h⟩

/-- Counting an endpoint makes its id a node and folds away the one the address was at. -/
theorem addOrUpdateNode_exists_iff (m : Manager) (ip hostname : String) (bytes : Nat) (now : Int)
    (k : String) :
    (∃ n, (m.addOrUpdateNodeLocked ip hostname bytes now).nodes.lookup k = some n)
      ↔ k = m.nodeIDFor ip (nodeHostname ip hostname)
        ∨ ((∃ n, m.nodes.lookup k = some n)
          ∧ ¬ FoldedBy m ip (m.nodeIDFor ip (nodeHostname ip hostname)) k) := by
  unfold addOrUpdateNodeLocked
  dsimp only
  generalize nodeHostname ip hostname = name
  generalize m.nodeIDFor ip name = nodeID
  obtain ⟨node, hnodes, -⟩ :=
    countEndpoint_nodes (m.mergePrevious ip name nodeID) nodeID ip name bytes now
  have hclaim := claimHostname_kept m ip name
  rw [hnodes, KeyedMap.lookup_insert_eq, foldedBy_iff]
  by_cases hk : k = nodeID
  · rw [if_pos hk]
    exact iff_of_true ⟨node, rfl⟩ (Or.inl hk)
  rw [if_neg hk]
  unfold mergePrevious
  dsimp only
  by_cases hg : (m.ipToNodeID.lookup ip).getD "" ≠ "" ∧ (m.ipToNodeID.lookup ip).getD "" ≠ nodeID
  · rw [if_pos hg, merge_exists_iff _ _ hg.2, hclaim.toNodesKept.exists_iff]
    simp [hk, hg, and_comm]
  · rw [if_neg hg, hclaim.toNodesKept.exists_iff]
    simp only [hk, false_or, hg, and_false, not_false_eq_true, and_true]

/-- Loading stored rows, the nodes are those the rows are counted on. -/
theorem bulkLoad_exists_iff (reg : Registry) (m : Manager) (nodes : List BulkNode)
    (edges : List BulkEdge) (clock : Nat → Int) (k : String) :
    (∃ n, (m.bulkLoad reg nodes edges clock).nodes.lookup k = some n)
      ↔ ∃ n, (m.bulkNodes nodes clock).nodes.lookup k = some n := by
  have hedges : ∀ (rows : List (BulkEdge × Nat)) (m : Manager),
      NodesKept m (rows.foldl (fun m r => m.bulkEdge reg r.1 (clock (nodes.length + r.2))) m) := by
    intro rows
    induction rows with
    | nil => exact fun m => NodesKept.of_nodes_eq rfl rfl
    | cons r rows ih => exact fun m => (bulkEdge_nodesKept reg m r.1 _).trans (ih _)
  unfold bulkLoad
  dsimp only
  rw [(hedges _ _).exists_iff]
  generalize m.bulkNodes nodes clock = m₀
  have hkept := overwriteAll_nodes { m₀ with dirty := true } nodes (m₀.nodes, []) k
  have hnone : ∀ {x y : Option Node},
      x.map (fun n => (n.ip, n.ips)) = y.map (fun n => (n.ip, n.ips)) →
      ((∃ n, x = some n) ↔ ∃ n, y = some n) := by
    intro x y hxy
    cases x <;> cases y
    · exact Iff.rfl
    · cases hxy
    · cases hxy
    · exact iff_of_true ⟨_, rfl⟩ ⟨_, rfl⟩
  exact hnone hkept

/-- Any stored row makes a node. -/
theorem bulkLoad_nodes_ne (reg : Registry) (m : Manager) {nodes : List BulkNode}
    (edges : List BulkEdge) (clock : Nat → Int) (hne : nodes ≠ []) :
    (m.bulkLoad reg nodes edges clock).nodes.entries ≠ [] := by
  have hrows : ∀ (rows : List (BulkNode × Nat)), rows ≠ [] → ∃ k n,
      (rows.foldl (fun m r => m.addOrUpdateNodeLocked r.1.id r.1.hostname 0 (clock r.2)) m).nodes.lookup
        k = some n := by
    intro rows hrows
    obtain ⟨front, r, rfl⟩ : ∃ front r, rows = front ++ [r] :=
      ⟨_, _, (List.dropLast_append_getLast hrows).symm⟩
    rw [List.foldl_append, List.foldl_cons, List.foldl_nil]
    exact ⟨_, (addOrUpdateNode_exists_iff _ _ _ _ _ _).mpr (Or.inl rfl)⟩
  obtain ⟨k, hk⟩ := hrows nodes.zipIdx fun hz => hne (List.zipIdx_eq_nil_iff.mp hz)
  obtain ⟨n, hn⟩ := (bulkLoad_exists_iff reg m nodes edges clock k).mpr hk
  exact List.ne_nil_of_mem ((KeyedMap.mem_entries_iff _ k n).mpr hn)

end Etherchimp
