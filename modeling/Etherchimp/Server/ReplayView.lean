import Etherchimp.Graph.BuildView
import Etherchimp.Replay.Snapshot

/-!
# The views of a replay

A replay lays a capture out once, over all of its packets, and shows every offset with
the positions found then. The view of an offset is built from its packets alone, by an
engine that only hands the positions out.
-/

namespace Etherchimp

variable {F : Type} [FloatMath F] [RuneCase]

/-- The config of every replay view. -/
def replayConfig : ViewConfig := { layoutMode := "force" }

/-- The caller brings an engine that has built no view. -/
def replayInput (le : LayoutEngine F) : ViewInput F := { client := some (le, {}) }

/-- Style a static snapshot with a layout run to convergence. -/
def convergeReplayView (go : Runtime) (rng : Nat → F) (raw : RawSnapshot) : ViewSnapshot F :=
  let le := (List.range 80).foldl (fun le _ => le.step go raw ["force"] {}) (newLayoutEngine rng)
  (buildView go raw replayConfig (replayInput le)).1

/-- The positions a session keeps. -/
def sessionPositions (view : ViewSnapshot F) : KeyedMap String (Vec F) :=
  view.nodes.foldl (fun positions n => positions.insert n.id ⟨n.x, n.y⟩) ∅

/-- The view of a snapshot with the session's positions. -/
def offsetView (go : Runtime) (rng : Nat → F) (positions : KeyedMap String (Vec F))
    (raw : RawSnapshot) : ViewSnapshot F :=
  let le := (newLayoutEngine rng).seedPositions "force" positions
  (buildView go raw replayConfig (replayInput le)).1

/-! ## Sessions -/

variable (F) in
/-- A build: its packets, and what the language and the clock leave open. -/
structure ReplayRequest where
  go : Runtime
  rng : Nat → F
  now : Int
  packets : List (PacketInfo × Manager.IngestClock)

variable (F) in
/-- What a session keeps of its capture for the requests to come. -/
structure ReplayScene where
  dnsCache : DNSCache
  positions : KeyedMap String (Vec F)

/-- Build a session from all packets of the capture. -/
def replaySessionFor (lookupAddr : String → List String) (full : ReplayRequest F) : ReplayScene F :=
  let (snapshot, dnsCache) := buildSnapshotFromPackets full.go lookupAddr full.now full.packets ∅
  { dnsCache := dnsCache
    positions := sessionPositions (convergeReplayView full.go full.rng snapshot) }

/-- The view of the packets up to an offset; the names looked up stay with the session. -/
def handleReplayPcap (lookupAddr : String → List String) (session : ReplayScene F)
    (r : ReplayRequest F) : ViewSnapshot F × ReplayScene F :=
  let (snapshot, dnsCache) :=
    buildSnapshotFromPackets r.go lookupAddr r.now r.packets session.dnsCache
  (offsetView r.go r.rng session.positions snapshot, { session with dnsCache := dnsCache })

end Etherchimp
