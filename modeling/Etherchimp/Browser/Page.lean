import Etherchimp.Server.Client

/-!
# The browser's side of the delta stream

The page keeps the nodes and edges it draws in two data sets, each with the render
signature an item was last drawn with, and collects the ids of a chunked full snapshot
while it comes in. Deltas go through a throttle that holds one of them back until a
timer fires; full snapshots and their chunks do not. Times are milliseconds.
-/

namespace Etherchimp

variable {F : Type}

/-- One data set, with the signature each item was last drawn with. -/
structure Layer (α : Type) where
  items : KeyedMap String α := ∅
  lastSig : KeyedMap String String := ∅

namespace Layer

variable {α : Type}

/-- Remove the items and forget their signatures. -/
def remove (l : Layer α) (ids : List String) : Layer α where
  items := KeyedMap.eraseAll l.items ids
  lastSig := KeyedMap.eraseAll l.lastSig ids

/-- Look at one incoming item: skip it when it is there and drawn with the same signature. -/
def touch (key sig : α → String) (items : KeyedMap String α) (s : KeyedMap String String × List α)
    (x : α) : KeyedMap String String × List α :=
  if s.1.lookup (key x) = some (sig x) ∧ (items.lookup (key x)).isSome then s
  else (s.1.insert (key x) (sig x), s.2 ++ [x])

/-- Write the incoming items that are not skipped. -/
def update (key sig : α → String) (l : Layer α) (incoming : List α) : Layer α :=
  let s := incoming.foldl (touch key sig l.items) (l.lastSig, [])
  { items := Delta.upsert key id l.items s.2, lastSig := s.1 }

/-- Remove what the complete snapshot does not list. -/
def keepOnly (l : Layer α) (keep : List String) : Layer α :=
  l.remove (l.items.keys.filter fun id => id ∉ keep)

end Layer

/-- How the page draws an entry at the moment: its theme, renderer and label settings. -/
structure Look (F : Type) where
  nodeSig : ViewNode F → String
  edgeSig : ViewEdge F → String

structure Page (F : Type) where
  nodes : Layer (ViewNode F) := {}
  edges : Layer (ViewEdge F) := {}
  /-- The node and edge ids of the chunked full snapshot that is coming in. -/
  fullSyncIds : Option (List String × List String) := none

def Page.updateGraph (look : Look F) (p : Page F) (data : ViewDelta F) : Page F :=
  let nodeIDs := data.nodes.map ViewNode.id
  let edgeIDs := data.edges.map ViewEdge.id
  let fullSyncIds :=
    if data.isFull then (if data.isPartial then some ([], []) else none) else p.fullSyncIds
  let fullSyncIds := fullSyncIds.map fun s => (s.1 ++ nodeIDs, s.2 ++ edgeIDs)
  let nodes := p.nodes.remove data.removedNodes
  let edges := p.edges.remove data.removedEdges
  let nodes := nodes.update ViewNode.id look.nodeSig data.nodes
  let edges := edges.update ViewEdge.id look.edgeSig data.edges
  if data.fullDone then
    let keep := fullSyncIds.getD (nodeIDs, edgeIDs)
    { nodes := nodes.keepOnly keep.1, edges := edges.keepOnly keep.2, fullSyncIds := none }
  else { nodes := nodes, edges := edges, fullSyncIds := fullSyncIds }

structure Browser (F : Type) where
  page : Page F := {}
  pendingUpdate : Option (ViewDelta F) := none
  updateScheduled : Bool := false
  /-- When the timer that is set fires. -/
  updateTimer : Option Int := none
  lastUpdateTime : Int := 0

/-- The delay between two deltas, by the number of nodes on the page. -/
def updateThrottleMS (nodeCount : Nat) : Int :=
  if 50 < nodeCount then 200 else if 25 < nodeCount then 150 else 100

namespace Browser

/-- A style delta or full snapshot arrives. -/
def throttledUpdateGraph (look : Look F) (now : Int) (b : Browser F) (data : ViewDelta F) :
    Browser F :=
  if data.isPartial ∧ ¬ data.isFull then { b with page := b.page.updateGraph look data }
  else if data.isFull then
    { page := b.page.updateGraph look data
      pendingUpdate := none
      updateScheduled := false
      updateTimer := none
      lastUpdateTime := now }
  else
    let throttle := updateThrottleMS b.page.nodes.items.entries.length
    let b := { b with pendingUpdate := some data }
    -- a delta is already scheduled; this one takes its place
    if b.updateScheduled then b
    else
      let timeSinceLastUpdate := now - b.lastUpdateTime
      if throttle ≤ timeSinceLastUpdate then
        { b with
          page := b.page.updateGraph look data, pendingUpdate := none, lastUpdateTime := now }
      else
        { b with
          updateScheduled := true, updateTimer := some (now + (throttle - timeSinceLastUpdate)) }

/-- The timer fires. -/
def fireTimer (look : Look F) (now : Int) (b : Browser F) : Browser F where
  page :=
    match b.pendingUpdate with
    | some data => b.page.updateGraph look data
    | none => b.page
  pendingUpdate := none
  updateScheduled := false
  updateTimer := none
  lastUpdateTime := now

end Browser

end Etherchimp
