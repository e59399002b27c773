import Etherchimp.Lib.Run
import Etherchimp.Server.Control
import Etherchimp.Store.Query

/-!
# Timeline views

A client that scrubs a stored capture sees the window that ends at its position,
rebuilt from the flow buckets. The hub keeps the last few windows it rebuilt, of
any client, most recently used first.

The hub works on one client at a time: it reads the position, looks the window up
or queries it, and marks the position built. The writer's flushes and the clients'
timeline messages come between any two of these steps. A query may fail.
-/

namespace Etherchimp

variable {ι F : Type} [DecidableEq ι] [RuneCase]

/-- A rebuilt window. -/
structure TlCacheEntry where
  position : TimelineWindow
  raw : RawSnapshot
  /-- The database contents the window was read from, which the code does not keep. -/
  readFrom : DB

def tlCacheSize : Nat := 4

/-- The rows of the window that ends at a position. -/
def windowOf (reg : Registry) (db : DB) (pos : TimelineWindow) : List StoredNode × List StoredEdge :=
  db.windowAggregates reg pos.captureID (pos.t - pos.window) pos.t

/-- A window as a graph of its own, loaded at the given clock readings. -/
def windowSnapshot (reg : Registry) (clock : Nat → Int) (db : DB) (pos : TimelineWindow) :
    RawSnapshot :=
  let (nodes, edges) := windowOf reg db pos
  let tmp := newManager.bulkLoad reg (nodes.map StoredNode.bulk) (edges.map StoredEdge.bulk) clock
  tmp.snapshotRaw

/-- The cached window of a position. -/
def cached (cache : List TlCacheEntry) (pos : TimelineWindow) : Option TlCacheEntry :=
  cache.find? fun e => e.position = pos

/-- The graph state at a position, with the database its rows are from. -/
def timelineRaw (reg : Registry) (db : DB) (cache : List TlCacheEntry) (pos : TimelineWindow)
    (ok : Bool) (clock : Nat → Int) : RawSnapshot × List TlCacheEntry :=
  match cached cache pos with
  | some e => (e.raw, e :: cache.eraseP fun e => e.position = pos)
  | none =>
      if ok then
        let raw := windowSnapshot reg clock db pos
        (raw, ⟨pos, raw, db⟩ :: cache.take (tlCacheSize - 1))
      else ({}, cache)

/-- What was last built for a client, and the database contents at the time. -/
structure BuiltWindow where
  raw : RawSnapshot
  builtAt : DB

/-- Where the hub is with the client it works on. -/
inductive TlPhase (ι : Type)
  | idle
  | query (i : ι) (tl : TimelineState)
  | mark (i : ι) (tl : TimelineState) (b : BuiltWindow)

/-- The hub, its clients, and the database behind it. -/
structure TlHub (ι F : Type) where
  db : DB
  tlCache : List TlCacheEntry
  clients : ι → Client F
  phase : TlPhase ι
  built : ι → Option BuiltWindow

namespace TlHub

/-- Clients that have just connected to a hub over a stored database. -/
def connect (db : DB) : TlHub ι F where
  db := db
  tlCache := []
  clients _ := {}
  phase := .idle
  built _ := none

inductive Label (ι : Type)
  /-- A transaction of the writer commits. -/
  | flush (pkts : List PacketEvent) (fb : FlushBatch)
  /-- A timeline message is handled. -/
  | scrub (i : ι) (captureID t window : Int)
  /-- The tick turns to a client and reads its position. -/
  | params (i : ι)
  /-- The window is looked up, or queried. -/
  | query (ok : Bool) (clock : Nat → Int)
  | mark

def setClient (s : TlHub ι F) (i : ι) (c : Client F) : TlHub ι F :=
  { s with clients := Function.update s.clients i c }

def step (reg : Registry) (s : TlHub ι F) : Label ι → TlHub ι F
  | .flush pkts fb => { s with db := s.db.flushTx pkts fb }
  | .scrub i captureID t window =>
      s.setClient i ((s.clients i).applyControl (.setTimeline captureID t window))
  | .params i =>
      match s.phase with
      | .idle =>
          match (s.clients i).timelineParams with
          | some tl =>
              -- raw mode ignores the timeline and marks it built at once
              if (s.clients i).snapshotCfg.raw then
                s.setClient i ((s.clients i).markTimelineBuilt tl.t tl.window)
              else { s with phase := .query i tl }
          | none => { s with built := Function.update s.built i none }
      | _ => s
  | .query ok clock =>
      match s.phase with
      | .query i tl =>
          let (raw, cache) := timelineRaw reg s.db s.tlCache tl.position ok clock
          { s with tlCache := cache, phase := .mark i tl ⟨raw, s.db⟩ }
      | _ => s
  | .mark =>
      match s.phase with
      | .mark i tl b =>
          { s.setClient i ((s.clients i).markTimelineBuilt tl.t tl.window) with
            phase := .idle
            built := Function.update s.built i (some b) }
      | _ => s

end TlHub

end Etherchimp
