import Etherchimp.Graph.Ops
import Etherchimp.Lib.Runtime

/-!
# The sweeps, in any order

`removeStaleNodes` and `removeStaleEdges` gather their candidates in the order the keys
were stored. A range over a Go map visits them in any order and `sort.Slice` is not
stable, so here both are left to the runtime.
-/

namespace Etherchimp

section Stale

variable {α : Type}

/-- Stalest first, ties broken by id. -/
def staleLess (id : α → String) (lastSeen : α → Int) (a b : α) : Bool :=
  if lastSeen a = lastSeen b then id a < id b else lastSeen a < lastSeen b

def isStale (lastSeen : α → Int) (threshold now : Int) (v : α) : Bool :=
  threshold < now - lastSeen v

/-- The candidates of one sweep, cut to the cap. -/
def staleOf (go : Runtime) (id : α → String) (lastSeen : α → Int) (cap : Nat)
    (threshold now : Int) (entries : KeyedMap String α) : List α :=
  (go.sortSlice (staleLess id lastSeen)
    (((go.rangeOf entries).map fun e => e.2).filter (isStale lastSeen threshold now))).take cap

end Stale

namespace Manager

def sweepNodes (m : Manager) (go : Runtime) (threshold now : Int) : Manager × Nat :=
  let stale := staleOf go Node.ip Node.lastSeen maxNodeRemovalsPerSweep threshold now m.nodes
  let m := if stale ≠ [] then { m with dirty := true } else m
  (stale.foldl removeNode m, stale.length)

def sweepEdges (m : Manager) (go : Runtime) (threshold now : Int) : Manager × Nat :=
  let stale := staleOf go Edge.id Edge.lastSeen maxEdgeRemovalsPerSweep threshold now m.edges
  let m := if stale ≠ [] then { m with dirty := true } else m
  (stale.foldl removeEdge m, stale.length)

end Manager

end Etherchimp
