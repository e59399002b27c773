import Mathlib.Order.OrderDual
import Etherchimp.Graph.Decay
import Etherchimp.Lib.Eviction
import Etherchimp.Proof.SearchNodes

/-!
# Decay is staggered and fair

One sweep drops the stalest few of the entries that are older than the threshold, and
nothing else; sweep after sweep the rest follow, in as many sweeps as the cap takes.
Both hold of nodes and of edges, as instances of evicting a few entries at a time.
-/

namespace Etherchimp

open Eviction (Keyed Swept)

section Stale

variable {α : Type} (id : α → String) (lastSeen : α → Int)

theorem staleLess_byCount : ByCount (staleLess id lastSeen) (fun v => OrderDual.toDual (lastSeen v)) id where
  iff a b := by
    unfold staleLess
    by_cases h : lastSeen a = lastSeen b
    · rw [if_pos h, decide_eq_true_eq, h]
      exact ⟨fun hid => Or.inr ⟨rfl, hid⟩, fun hor => (hor.resolve_left (lt_irrefl _)).2⟩
    · rw [if_neg h, decide_eq_true_eq]
      exact ⟨Or.inl, fun hor => hor.resolve_right fun hand => h hand.1⟩

/-- Entries of different ids are never tied. -/
theorem staleLess_ordered : Eviction.Ordered id (staleLess id lastSeen) where
  preorders := (staleLess_byCount id lastSeen).preorders
  ties _ _ hab hba := ((staleLess_byCount id lastSeen).eq_of_ties hab hba).2

variable {id lastSeen}

/-- Whatever the order of the map and of the sort, the candidates are the same. -/
theorem staleOf_eq (go : Runtime) (cap : Nat) (threshold now : Int) {entries : KeyedMap String α}
    (hk : Keyed id entries) : staleOf go id lastSeen cap threshold now entries
      = staleValues id lastSeen cap threshold now entries := by
  have ho := staleLess_ordered id lastSeen
  have hiff : ∀ a b, staleBefore id lastSeen a b ↔ staleLess id lastSeen b a = false := by
    intro a b
    unfold staleBefore staleLess
    by_cases h : lastSeen a = lastSeen b
    · rw [if_pos h, if_pos h.symm, decide_eq_false_iff_not, String.not_lt]
    · rw [if_neg h, if_neg (Ne.symm h), decide_eq_false_iff_not]
      omega
  have htotal : Std.Total (staleBefore id lastSeen) := ⟨fun a b => by
    rw [hiff, hiff]
    exact (ho.preorders.total a b).symm⟩
  have htrans : IsTrans _ (staleBefore id lastSeen) := ⟨fun a b c hab hbc => by
    rw [hiff] at hab hbc ⊢
    exact ho.preorders.trans a b c hab hbc⟩
  have hsorted := List.pairwise_insertionSort (staleBefore id lastSeen)
    ((entries.entries.map fun e => e.2).filter (isStale lastSeen threshold now))
  -- both lists hold the same candidates, and no two of them are tied
  have hperm : (((entries.entries.map fun e => e.2).filter
      (isStale lastSeen threshold now)).insertionSort (staleBefore id lastSeen)).Perm
      (Eviction.queue Runtime.stable (staleLess id lastSeen) (isStale lastSeen threshold now)
        entries) :=
    (List.perm_insertionSort _ _).trans (Runtime.stable.sortSlice_perm _ _).symm
  have hqueue : Eviction.queue go (staleLess id lastSeen) (isStale lastSeen threshold now) entries
      = ((entries.entries.map fun e => e.2).filter
          (isStale lastSeen threshold now)).insertionSort (staleBefore id lastSeen) := by
    rw [Eviction.queue_eq go Runtime.stable _ ho hk]
    refine Eviction.eq_of_mem_iff ho (Eviction.queue_sorted Runtime.stable _ ho entries)
      (hsorted.imp fun h => (hiff _ _).mp h) (Eviction.queue_nodup Runtime.stable _ _ hk) ?_
      fun a => hperm.mem_iff.symm
    rw [(hperm.map id).nodup_iff]
    exact Eviction.queue_nodup Runtime.stable _ _ hk
  exact congrArg (List.take cap) hqueue

end Stale

section Sweeps

variable {m : Manager}

/-- One sweep given to the manager. -/
structure Sweep where
  go : Runtime
  threshold : Int
  now : Int

/-- Sweep after sweep, with no traffic in between. -/
def Manager.afterNodeSweeps (m : Manager) (l : List Sweep) : Manager :=
  l.foldl (fun m s => (m.sweepNodes s.go s.threshold s.now).1) m

def Manager.afterEdgeSweeps (m : Manager) (l : List Sweep) : Manager :=
  l.foldl (fun m s => (m.sweepEdges s.go s.threshold s.now).1) m

/-! ## Nodes -/

theorem foldl_removeNode_nodes (l : List Node) (m : Manager) :
    (l.foldl Manager.removeNode m).nodes = KeyedMap.eraseAll m.nodes (l.map Node.ip)
      ∧ (l.foldl Manager.removeNode m).edges = m.edges := by
  induction l generalizing m with
  | nil => exact ⟨rfl, rfl⟩
  | cons n l ih => exact ih (m.removeNode n)

/-- A sweep of the manager is a sweep of its nodes. -/
theorem sweepNodes_nodes (m : Manager) (go : Runtime) (threshold now : Int) :
    (m.sweepNodes go threshold now).1.nodes
        = Eviction.sweep go Node.ip (staleLess Node.ip Node.lastSeen)
          (isStale Node.lastSeen threshold now) maxNodeRemovalsPerSweep m.nodes
      ∧ (m.sweepNodes go threshold now).1.edges = m.edges := by
  unfold Manager.sweepNodes
  dsimp only
  rw [(foldl_removeNode_nodes _ _).1, (foldl_removeNode_nodes _ _).2]
  split <;> exact ⟨rfl, rfl⟩

theorem afterNodeSweeps_nodes (l : List Sweep) (m : Manager) :
    (m.afterNodeSweeps l).nodes
      = Eviction.sweeps Node.ip (staleLess Node.ip Node.lastSeen) maxNodeRemovalsPerSweep m.nodes
          (l.map fun s => (s.go, isStale Node.lastSeen s.threshold s.now)) := by
  induction l generalizing m with
  | nil => rfl
  | cons s l ih =>
    have hstep := (sweepNodes_nodes m s.go s.threshold s.now).1
    refine (ih (m.sweepNodes s.go s.threshold s.now).1).trans ?_
    rw [hstep]
    rfl

/-! ## Edges -/

theorem foldl_removeEdge_edges (l : List Edge) (m : Manager) :
    (l.foldl Manager.removeEdge m).edges = KeyedMap.eraseAll m.edges (l.map Edge.id)
      ∧ (l.foldl Manager.removeEdge m).nodes = m.nodes := by
  induction l generalizing m with
  | nil => exact ⟨rfl, rfl⟩
  | cons e l ih => exact ih (m.removeEdge e)

/-- A sweep of the manager is a sweep of its edges. -/
theorem sweepEdges_edges (m : Manager) (go : Runtime) (threshold now : Int) :
    (m.sweepEdges go threshold now).1.edges
        = Eviction.sweep go Edge.id (staleLess Edge.id Edge.lastSeen)
          (isStale Edge.lastSeen threshold now) maxEdgeRemovalsPerSweep m.edges
      ∧ (m.sweepEdges go threshold now).1.nodes = m.nodes := by
  unfold Manager.sweepEdges
  dsimp only
  rw [(foldl_removeEdge_edges _ _).1, (foldl_removeEdge_edges _ _).2]
  split <;> exact ⟨rfl, rfl⟩

theorem afterEdgeSweeps_edges (l : List Sweep) (m : Manager) :
    (m.afterEdgeSweeps l).edges
      = Eviction.sweeps Edge.id (staleLess Edge.id Edge.lastSeen) maxEdgeRemovalsPerSweep m.edges
          (l.map fun s => (s.go, isStale Edge.lastSeen s.threshold s.now)) := by
  induction l generalizing m with
  | nil => rfl
  | cons s l ih =>
    have hstep := (sweepEdges_edges m s.go s.threshold s.now).1
    refine (ih (m.sweepEdges s.go s.threshold s.now).1).trans ?_
    rw [hstep]
    rfl

/-- The sweeps the packet path's model makes are these. -/
theorem sweeps_eq (go : Runtime) (threshold now : Int) (hn : Keyed Node.ip m.nodes)
    (he : Keyed Edge.id m.edges) :
    m.sweepNodes go threshold now = m.removeStaleNodes threshold now
      ∧ m.sweepEdges go threshold now = m.removeStaleEdges threshold now := by
  unfold Manager.sweepNodes Manager.sweepEdges
  rw [staleOf_eq go _ threshold now hn, staleOf_eq go _ threshold now he]
  exact ⟨rfl, rfl⟩

/-! ## Staggered and fair -/

/-- How many entries are older than the threshold. -/
def staleCount {α : Type} (lastSeen : α → Int) (threshold now : Int) (entries : KeyedMap String α) :
    Nat :=
  entries.entries.countP fun e => isStale lastSeen threshold now e.2

/-- All sweeps find the same entries stale. -/
def SameStale {α : Type} (lastSeen : α → Int) (threshold now : Int) (entries : KeyedMap String α)
    (l : List Sweep) : Prop :=
  ∀ s ∈ l, ∀ id v, entries.lookup id = some v →
    isStale lastSeen s.threshold s.now v = isStale lastSeen threshold now v

/--
The stale entries are gone after exactly as many sweeps as the cap takes, and the others
stay as they are all along.
-/
structure Drained {α : Type} (lastSeen : α → Int) (threshold now : Int) (cap : Nat)
    (before after : KeyedMap String α) (sweeps : Nat) : Prop where
  gone : (∀ id v, after.lookup id = some v → isStale lastSeen threshold now v = false)
    ↔ (staleCount lastSeen threshold now before + (cap - 1)) / cap ≤ sweeps
  others : ∀ id v, before.lookup id = some v → isStale lastSeen threshold now v = false →
    after.lookup id = some v
  kept : ∀ id v, after.lookup id = some v → before.lookup id = some v

theorem drained_sweeps {α : Type} {id : α → String} {lastSeen : α → Int} {threshold now : Int}
    {cap : Nat} {entries : KeyedMap String α} {l : List Sweep} (hk : Keyed id entries)
    (hcap : 0 < cap) (hsame : SameStale lastSeen threshold now entries l) :
    Drained lastSeen threshold now cap entries
      (Eviction.sweeps id (staleLess id lastSeen) cap entries
        (l.map fun s => (s.go, isStale lastSeen s.threshold s.now))) l.length := by
  have ho := staleLess_ordered id lastSeen
  have hsame' : ∀ s ∈ l.map fun s => (s.go, isStale lastSeen s.threshold s.now), ∀ k v,
      entries.lookup k = some v → s.2 v = isStale lastSeen threshold now v := by
    intro s hs
    obtain ⟨t, ht, rfl⟩ := List.mem_map.mp hs
    exact hsame t ht
  obtain ⟨-, hsub, hstay, -⟩ := Eviction.queue_sweeps cap Runtime.stable ho hk hsame'
  have hgone := Eviction.drained_iff ho hk hcap hsame'
  rw [List.length_map] at hgone
  exact ⟨hgone, hstay, hsub⟩

/--
**Decay is staggered and fair.** A sweep drops exactly the entries older than the
threshold that have fewer than 50 (of the edges, 100) such entries before them, says how
many these are and leaves all others; and sweeps that find the same entries stale take
exactly as many sweeps as the cap says to drop them all.
-/
theorem decay_staggered (hn : Keyed Node.ip m.nodes) (he : Keyed Edge.id m.edges)
    (threshold now : Int) :
    (∀ go : Runtime,
        Swept (staleLess Node.ip Node.lastSeen) (isStale Node.lastSeen threshold now) 50 m.nodes
          (m.sweepNodes go threshold now).1.nodes (m.sweepNodes go threshold now).2
        ∧ (m.sweepNodes go threshold now).1.edges = m.edges
        ∧ Swept (staleLess Edge.id Edge.lastSeen) (isStale Edge.lastSeen threshold now) 100 m.edges
          (m.sweepEdges go threshold now).1.edges (m.sweepEdges go threshold now).2
        ∧ (m.sweepEdges go threshold now).1.nodes = m.nodes)
      ∧ ∀ l : List Sweep,
          (SameStale Node.lastSeen threshold now m.nodes l →
            Drained Node.lastSeen threshold now 50 m.nodes (m.afterNodeSweeps l).nodes l.length)
          ∧ (SameStale Edge.lastSeen threshold now m.edges l →
            Drained Edge.lastSeen threshold now 100 m.edges (m.afterEdgeSweeps l).edges
              l.length) := by
  refine ⟨fun go => ?_, fun l => ⟨fun hsame => ?_, fun hsame => ?_⟩⟩
  · obtain ⟨hnodes, hedges⟩ := sweepNodes_nodes m go threshold now
    obtain ⟨hedges', hnodes'⟩ := sweepEdges_edges m go threshold now
    rw [hnodes, hedges']
    exact ⟨Eviction.swept (staleLess_ordered _ _) hn, hedges,
      Eviction.swept (staleLess_ordered _ _) he, hnodes'⟩
  · rw [afterNodeSweeps_nodes]
    exact drained_sweeps hn (by decide) hsame
  · rw [afterEdgeSweeps_edges]
    exact drained_sweeps he (by decide) hsame

/-- Three hosts, two of them silent for over ten: one sweep drops the two. -/
def silentHosts : Manager :=
  runOps [.addOrUpdateNode "10.0.0.1" "" 60 0, .addOrUpdateNode "10.0.0.2" "" 60 0,
    .addOrUpdateNode "10.0.0.3" "" 60 95]

theorem decay_staggered_silent :
    (silentHosts.sweepNodes .stable 10 100).2 = min 50 2
      ∧ Drained Node.lastSeen 10 100 50 silentHosts.nodes
          (silentHosts.afterNodeSweeps [⟨.stable, 10, 100⟩]).nodes 1 := by
  have hn : Keyed Node.ip silentHosts.nodes := fun id n h => (allSearchable_runOps _ id n h).keyed
  have he : Keyed Edge.id silentHosts.edges := by
    intro id e h
    rw [show silentHosts.edges = ∅ from rfl, AList.lookup_empty] at h
    cases h
  obtain ⟨hsweep, hdrain⟩ := decay_staggered hn he 10 100
  refine ⟨(hsweep .stable).1.count, (hdrain [⟨.stable, 10, 100⟩]).1 fun s hs id v _ => ?_⟩
  rw [List.mem_singleton.mp hs]

end Sweeps

end Etherchimp
