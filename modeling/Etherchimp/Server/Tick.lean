import Etherchimp.Graph.ViewStates
import Etherchimp.Server.Hub
import Etherchimp.Server.ViewCache

/-!
# The tick, from the idle gate to the messages

The hub asks first whether anything is to be done: the graph changed, a client awaits
a full view, a timeline moved, or a layout still converges. If not it returns at once.
Otherwise it clears the dirty flag, drains the flows, and works off the clients.

A client that scrubs a stored capture has a view of its own, laid out by the engine
the client brought along. Clients of the live graph share a view and an engine when
their configurations have one key. A raw client is sent the whole topology, and
nothing is laid out for it.

Between two ticks the graph changes, clients come and go, and their messages are
handled. The roles a tick commits are no part of the node here, and the running
average of what a tick costs decides only when the next one comes.
-/

namespace Etherchimp

open Panic

def maxFlowsPerTick : Nat := 60
def viewRebuildEveryLarge : Nat := 5
/-- Nanoseconds after which an unused bucket is dropped. -/
def sharedEngineMaxIdle : Int := 2 * 60 * 1000000000

/-! ## Flows -/

/-- Put a flow behind those that are at least as busy, and keep `k`. -/
def insertFlow (k : Nat) (top : List TrafficFlow) (f : TrafficFlow) : List TrafficFlow :=
  let i := (top.takeWhile fun g => f.packets ≤ g.packets).length
  if i = k then top else (top.take i ++ f :: top.drop i).take k

/-- The `k` busiest flows, busiest first; no more than `k` pass as they are. -/
def topKFlows (flows : List TrafficFlow) (k : Nat) : List TrafficFlow :=
  if flows.length ≤ k then flows else flows.foldl (insertFlow k) []

namespace Manager

/-- The flows since the last drain. -/
def drainFlows (go : Runtime) (m : Manager) : List TrafficFlow × Manager :=
  ((go.rangeOf m.recentFlows).map fun e => e.2, { m with recentFlows := ∅ })

def getNodeCount (m : Manager) : Nat := m.nodes.entries.length

end Manager

/-! ## The hub -/

/-- A pointer to a layout engine: a client's own, or one of those shared. -/
inductive EngineRef
  | own (id : Nat)
  | shared (n : Nat)
  deriving DecidableEq

/-- The persistent physics state of one config bucket. -/
structure SharedLayoutEngine where
  eng : EngineRef
  lastUsed : Int

/-- One step of a layout engine in one mode. -/
structure EngineStep (F : Type) [FloatMath F] [RuneCase] where
  mode : String
  apply : LayoutEngine F → LayoutEngine F
  isStep : ∃ go shown args, apply = fun le => LayoutEngine.step go shown [mode] le args

structure TickHub (F : Type) [FloatMath F] [RuneCase] where
  hub : Hub F
  graphMgr : Manager
  /-- The layout engines behind the pointers, and what `BuildView` remembers of each. -/
  views : ViewTable EngineRef F
  sharedEngines : KeyedMap String SharedLayoutEngine := ∅
  /-- How many shared engines were made. -/
  made : Nat := 0
  tickSeq : Nat := 0
  /-- The steps each client's own engine made, which the source does not keep. -/
  ownSteps : Nat → List (EngineStep F) := fun _ => []

/-- What a tick reads from outside. -/
structure TickEnv (F : Type) where
  go : Runtime
  now : Int
  /-- The clock when the engine of a bucket is asked for. -/
  usedAt : String → Int
  overrides : OverrideStore F := ∅
  pins : KeyedMap String (Vec F) := ∅
  vlanByIP : KeyedMap String UInt16 := ∅
  /-- The reconstructed windows of the stored captures. -/
  timelineRaw : TimelineWindow → RawSnapshot := fun _ => {}
  marshals : OutMsg F → Bool := fun _ => true

variable {F : Type} [FloatMath F] [RuneCase]

namespace TickHub

/-! ## The idle gate -/

section Gate

variable (h : TickHub F)

/-- Some connected client has the property. -/
def anyClient (p : Nat → Bool) : Bool := h.hub.clients.keys.any p

def anyNeedsFull : Bool := h.anyClient fun id => (h.hub.conn id).needsFull

def anyTimelineDirty : Bool := h.anyClient fun id => (h.hub.conn id).timelineDirty

def subnetActive : Bool :=
  h.anyClient fun id => (h.hub.conn id).snapshotCfg.layoutMode == "subnet"

/-- A bucket still converges; one without an engine counts as converging. -/
def sharedEngineUnsettled (key mode : String) : Bool :=
  match h.sharedEngines.lookup key with
  | none => true
  | some se => (h.views.engines se.eng).unsettled [mode]

/-- The layout a client waits for still converges. -/
def layoutBusy (id : Nat) : Bool :=
  let cfg := (h.hub.conn id).snapshotCfg
  if cfg.raw || (h.hub.conn id).timeline.isSome then
    (h.views.engines (.own id)).unsettled [cfg.layoutMode]
  else h.sharedEngineUnsettled (viewConfigKey cfg) cfg.layoutMode

def anyLayoutBusy : Bool := h.anyClient h.layoutBusy

/-- The early return of an idle hub. -/
def idles : Bool :=
  !h.graphMgr.dirty && !h.anyNeedsFull && !h.anyLayoutBusy && !h.anyTimelineDirty

/-- The early return of a large graph between two rebuilds. -/
def paced : Bool :=
  h.graphMgr.dirty && !h.anyNeedsFull && !h.anyLayoutBusy && !h.anyTimelineDirty
    && decide (largeGraphNodes < h.graphMgr.getNodeCount)
    && h.tickSeq % viewRebuildEveryLarge != 0

end Gate

/-! ## Views -/

/-- The engine of a bucket, made on first use. -/
def sharedEngineFor (rng : Nat → F) (env : TickEnv F) (h : TickHub F) (key : String) :
    EngineRef × TickHub F :=
  match h.sharedEngines.lookup key with
  | some se =>
      (se.eng, { h with
        sharedEngines := h.sharedEngines.insert key { se with lastUsed := env.usedAt key } })
  | none =>
      let eng := EngineRef.shared h.made
      (eng, { h with
        views := { h.views with
          engines := fun e => if e = eng then newLayoutEngine rng else h.views.engines e }
        made := h.made + 1
        sharedEngines := h.sharedEngines.insert key ⟨eng, env.usedAt key⟩ })

def pruneSharedEngines (h : TickHub F) (now : Int) : TickHub F :=
  let idle := h.sharedEngines.entries.filter fun e => sharedEngineMaxIdle < now - e.2.lastUsed
  { h with sharedEngines := h.sharedEngines.eraseAll (idle.map fun e => e.1) }

/-- How a build steps its engine. -/
def engineStep (cfg : ViewConfig) (c : BuildCall EngineRef F) (input : ViewInput F) :
    EngineStep F where
  mode := cfg.layoutMode
  apply le :=
    LayoutEngine.step c.go ⟨input.shownNodes c.go c.raw cfg, input.shownEdges c.go c.raw cfg⟩
      [cfg.layoutMode] le
      { pins := input.pins
        vlanByIP := input.vlanByIP
        radii := some (viewRadii cfg (isGroupNode input.overrides) (input.folding c.go c.raw cfg)
          (input.shownNodes c.go c.raw cfg)) }
  isStep := ⟨_, _, _, rfl⟩

/-- One call of `BuildView`. -/
def build (h : TickHub F) (cfg : ViewConfig) (c : BuildCall EngineRef F) :
    ViewSnapshot F × TickHub F :=
  ((buildView c.go c.raw cfg (h.views.input c)).1,
    { h with
      views := h.views.call (fun _ => cfg) c
      ownSteps :=
        match c.engine with
        | .own id =>
            Function.update h.ownSteps id
              (h.ownSteps id ++ [engineStep cfg c (h.views.input c)])
        | .shared _ => h.ownSteps })

variable (F) in
/-- The hub during a tick, with the live views built so far. -/
abbrev Serving := TickHub F × KeyedMap String (ViewSnapshot F)

/-- The view of a client; a raw client has none. -/
def viewFor (rng : Nat → F) (env : TickEnv F) (vlanByIP : KeyedMap String UInt16)
    (s : Serving F) (id : Nat) : ViewSnapshot F × Serving F :=
  let (h, bucketViews) := s
  let cfg := (h.hub.conn id).snapshotCfg
  let call (engine : EngineRef) (raw : RawSnapshot) : BuildCall EngineRef F :=
    { go := env.go, engine := engine, raw := raw, overrides := env.overrides, pins := env.pins
      vlanByIP := vlanByIP }
  if cfg.raw then ({ nodes := [], edges := [] }, h, bucketViews)
  else
    match (h.hub.conn id).timelineParams with
    | some tl =>
        let (view, h) := h.build cfg (call (.own id) (env.timelineRaw tl.position))
        (view, h, bucketViews)
    | none =>
        let key := viewConfigKey cfg
        match bucketViews.lookup key with
        | some view => (view, h, bucketViews)
        | none =>
            let (eng, h) := sharedEngineFor rng env h key
            let (view, h) := h.build cfg (call eng h.graphMgr.snapshotRaw)
            (view, h, bucketViews.insert key view)

/-! ## The tick -/

/-- What the messages of a client are made from. -/
def tickInput (env : TickEnv F) (h : TickHub F) (flows : List TrafficFlow)
    (view : ViewSnapshot F) : TickInput F where
  now := env.now
  view _ := view
  flows := flows
  protoStats := h.graphMgr.protoCounts
  nodeCount := h.graphMgr.getNodeCount
  marshals := env.marshals

/-- The turn of one client. -/
def serveClient (rng : Nat → F) (env : TickEnv F) (vlanByIP : KeyedMap String UInt16)
    (flows : List TrafficFlow) (s : Serving F) (id : Nat) : Except Panic (Serving F) :=
  -- a client that was dropped during this tick is not visited
  if id ∉ s.1.hub.clients then return s
  else do
    let (view, h, bucketViews) := viewFor rng env vlanByIP s id
    let hub ← h.hub.serve (tickInput env h flows view) id
    return ({ h with hub := hub }, bucketViews)

def tick (rng : Nat → F) (env : TickEnv F) (h : TickHub F) : Except Panic (TickHub F) :=
  if h.hub.clients.keys = [] then return h
  else if h.idles then return h
  else
    let h := { h with tickSeq := h.tickSeq + 1 }
    if h.paced then return h
    else do
      let (flows, m) := { h.graphMgr with dirty := false }.drainFlows env.go
      let vlanByIP := if h.subnetActive then env.vlanByIP else ∅
      let order := (env.go.rangeOf h.hub.clients).map fun e => e.1
      let (h, _) ← order.foldlM
        (serveClient rng env vlanByIP (topKFlows flows maxFlowsPerTick)) ({ h with graphMgr := m }, ∅)
      return h.pruneSharedEngines env.now

/-! ## Runs -/

/-- What happens to the hub and around it. -/
inductive Event (F : Type)
  | register (id : Nat)
  | unregister (id : Nat)
  | resyncAll
  | control (id : Nat) (msg : ControlMsg)
  | drain (id n : Nat)
  /-- A packet arrives, or something else changes the graph. -/
  | graph (op : Op)
  | tick (env : TickEnv F)

def step (rng : Nat → F) (h : TickHub F) : Event F → Except Panic (TickHub F)
  | .register id => return { h with hub := ← h.hub.step (.register id) }
  | .unregister id => return { h with hub := ← h.hub.step (.unregister id) }
  | .resyncAll => return { h with hub := ← h.hub.step .resyncAll }
  | .control id msg => return { h with hub := ← h.hub.step (.control id msg) }
  | .drain id n => return { h with hub := ← h.hub.step (.drain id n) }
  | .graph op => return { h with graphMgr := op.apply h.graphMgr }
  | .tick env => h.tick rng env

/-- A new hub over an empty graph; every client to come has an engine of its own. -/
def start (cfg : Nat → ViewConfig) (rng : Nat → F) : TickHub F where
  hub := Hub.newHub cfg
  graphMgr := newManager
  views := { engines := fun _ => newLayoutEngine rng }

def run (cfg : Nat → ViewConfig) (rng : Nat → F) (l : List (Event F)) : Except Panic (TickHub F) :=
  l.foldlM (step rng) (start cfg rng)

end TickHub

end Etherchimp
