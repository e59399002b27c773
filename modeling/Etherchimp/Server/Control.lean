import Etherchimp.Server.Client

/-!
# Control messages and the tick of one client

A browser steers its view with control messages, each handled under the client's lock.
The hub works off the client in its tick: it reads the full flag, the view config and
the timeline position in critical sections of their own, and a message may be handled
between any two of them. `TickState.step` is one critical section or one message. A
tick may start at any time here, and it runs to its end: no panic, no failed send.
-/

namespace Etherchimp

variable {F : Type}

/-! ## Messages -/

/-- An inbound control message, decoded; times are the `int64` of the numbers sent. -/
inductive ControlMsg
  | setFilters (hidden : List String)
  | setLayout (mode : String)
  | setAggregation (threshold : Int) (expanded fullExpand : List String) (focus zoomBand : String)
  | resync
  | setTimeline (captureID t window : Int)
  | setViewMode (mode : String)
  /-- An unknown type, or data that does not decode. -/
  | malformed

/-- The set of the listed names. -/
def nameSet (names : List String) : KeyedMap String Bool :=
  names.foldl (fun m name => m.insert name true) ∅

namespace Client

def applyControl (c : Client F) : ControlMsg → Client F
  | .setFilters hidden =>
      { c with cfg := { c.cfg with hidden := nameSet hidden }, needsFull := true }
  | .setLayout mode =>
      if mode = "" then c
      else { c with cfg := { c.cfg with layoutMode := mode }, needsFull := true }
  | .setAggregation threshold expanded fullExpand focus zoomBand =>
      { c with
        cfg :=
          { c.cfg with
            expandedSubnets := nameSet expanded
            fullExpand := nameSet fullExpand
            focusCIDR := focus
            zoomBand :=
              if zoomBand = "far" ∨ zoomBand = "mid" ∨ zoomBand = "near" ∨ zoomBand = "" then zoomBand
              else c.cfg.zoomBand
            aggregateThreshold := threshold }
        needsFull := true }
  | .resync => { c with needsFull := true }
  | .setTimeline captureID t window =>
      if captureID = 0 then
        -- exit timeline mode back to the live view
        if c.timeline.isSome then { c with timeline := none, needsFull := true } else c
      else
        let win := if window ≤ 0 then 60 else window
        match c.timeline with
        | some cur =>
            if cur.captureID ≠ captureID then
              { c with
                timeline := some { captureID := captureID, t := t, window := win }
                needsFull := true }
            else { c with timeline := some { cur with t := t, window := win } }
        | none =>
            { c with
              timeline := some { captureID := captureID, t := t, window := win }
              needsFull := true }
  | .setViewMode mode =>
      let raw := mode == "raw"
      if raw ≠ c.cfg.raw then { c with cfg := { c.cfg with raw := raw }, needsFull := true }
      else c
  | .malformed => c

/-! ## Critical sections of the tick -/

/-- Read and clear the full flag. -/
def consumeNeedsFull (c : Client F) : Bool × Client F := (c.needsFull, { c with needsFull := false })

def snapshotCfg (c : Client F) : ViewConfig := c.cfg

/-- The timeline position, when the client has one. -/
def timelineParams (c : Client F) : Option TimelineState := c.timeline

/-- The timeline position moved since the last built view. -/
def timelineDirty (c : Client F) : Bool :=
  c.timeline.any fun cur => cur.built != cur.t || cur.builtWin != cur.window

/-- Record a position as rendered, whichever capture the client is at by now. -/
def markTimelineBuilt (c : Client F) (t window : Int) : Client F :=
  { c with timeline := c.timeline.map fun cur => { cur with built := t, builtWin := window } }

end Client

/-! ## The tick of one client -/

/-- The nodes above which rebuilds and raw frames slow down. -/
def largeGraphNodes : Nat := 20000

/-- Nanoseconds between two raw frames. -/
def rawFrameInterval (nodeCount : Nat) : Int :=
  if largeGraphNodes < nodeCount then 5 * 1000000000 else 1000000000

/-- A stretch of a stored capture. -/
structure TimelineWindow where
  captureID : Int
  t : Int
  window : Int
  deriving DecidableEq

/-- The stretch a client has scrubbed to. -/
def TimelineState.position (cur : TimelineState) : TimelineWindow := ⟨cur.captureID, cur.t, cur.window⟩

/-- The stretch a client counts as rendered. -/
def TimelineState.rendered (cur : TimelineState) : TimelineWindow :=
  ⟨cur.captureID, cur.built, cur.builtWin⟩

/-- What was built last: the config snapshot it was built from, and for a view its source. -/
inductive Built
  /-- `BuildRawTopology` over the live graph. -/
  | raw (cfg : ViewConfig)
  /-- `BuildView` over a stretch of a stored capture, or over the live graph. -/
  | view (cfg : ViewConfig) (source : Option TimelineWindow)

/-- Where the tick stands: what it does next, and the locals it holds. -/
inductive TickPhase
  | idle
  /-- The flag is consumed; next it asks for raw mode. -/
  | consumed (full : Bool)
  | rawParams (full : Bool)
  | rawMark (full : Bool) (tl : TimelineState)
  | rawCadence (full : Bool)
  | rawBuild
  | viewParams (full : Bool)
  | viewMark (full : Bool) (tl : TimelineState)
  | viewCfg (full : Bool) (source : Option TimelineWindow)
  | viewBuild (full : Bool) (source : Option TimelineWindow) (cfg : ViewConfig)

/-- A client of the hub, with the build that is in progress for it and the last one finished. -/
structure TickState (F : Type) where
  client : Client F
  phase : TickPhase := .idle
  built : Option Built := none

namespace TickState

/-- A client that has just connected. -/
def connect (cfg : ViewConfig) : TickState F := { client := { cfg := cfg } }

/-- The next critical section of the tick. -/
def advance (s : TickState F) (now : Int) (nodeCount : Nat) : TickState F :=
  match s.phase with
  | .idle =>
      let (full, c) := s.client.consumeNeedsFull
      { s with client := c, phase := .consumed full }
  | .consumed full =>
      if s.client.snapshotCfg.raw then { s with phase := .rawParams full }
      else { s with phase := .viewParams full }
  | .rawParams full =>
      match s.client.timelineParams with
      | some tl => { s with phase := .rawMark full tl }
      | none => { s with phase := .rawCadence full }
  | .rawMark full tl =>
      { s with client := s.client.markTimelineBuilt tl.t tl.window, phase := .rawCadence full }
  | .rawCadence full =>
      -- no frame is due
      if ¬ full ∧ now - s.client.lastRawAt < rawFrameInterval nodeCount then { s with phase := .idle }
      else { s with client := { s.client with lastRawAt := now }, phase := .rawBuild }
  | .rawBuild => { s with phase := .idle, built := some (.raw s.client.snapshotCfg) }
  | .viewParams full =>
      match s.client.timelineParams with
      | some tl => { s with phase := .viewMark full tl }
      | none => { s with phase := .viewCfg full none }
  | .viewMark full tl =>
      { s with
        client := s.client.markTimelineBuilt tl.t tl.window
        phase := .viewCfg full (some tl.position) }
  | .viewCfg full source => { s with phase := .viewBuild full source s.client.snapshotCfg }
  | .viewBuild _ source cfg => { s with phase := .idle, built := some (.view cfg source) }

/-- A message is handled, or the tick goes on. -/
inductive Label
  | control (msg : ControlMsg)
  | advance (now : Int) (nodeCount : Nat)

def step (s : TickState F) : Label → TickState F
  | .control msg => { s with client := s.client.applyControl msg }
  | .advance now nodeCount => s.advance now nodeCount

end TickState

end Etherchimp
