import Etherchimp.Lib.Panic
import Etherchimp.Server.Control

/-!
# The hub and the send channels of its clients

One goroutine owns the client table. It registers and unregisters clients, and in
each tick it builds every client's messages and queues them on that client's
buffered channel. A client whose buffer is full is dropped: its channel is closed
and it leaves the table. A write pump empties the channel in the meantime.

A send on a closed channel and a second close are panics. What a message says is
what the client's own functions computed; a raw frame's contents do not matter here.
A tick that returns early sends nothing and is no step.
-/

namespace Etherchimp

open Panic

variable {F : Type}

/-! ## Channels -/

/-- A message queued for a client. -/
inductive OutMsg (F : Type)
  | style (delta : ViewDelta F)
  | positions (frame : Wire.Bytes)
  | counts (frame : CountsFrame)
  | rawMeta
  | rawFrame

/-- A client's outbound channel. -/
structure SendChan (F : Type) where
  queue : List (OutMsg F) := []
  closed : Bool := false

/-- How many messages a channel holds. -/
def sendCap : Nat := 256

namespace SendChan

def close (ch : SendChan F) : Except Panic (SendChan F) :=
  if ch.closed then .error .closeOfClosed else .ok { ch with closed := true }

/-- Queue a message when there is room, `none` when the buffer is full. -/
def offer (ch : SendChan F) (m : OutMsg F) : Except Panic (Option (SendChan F)) :=
  if ch.closed then .error .sendOnClosed
  else if ch.queue.length < sendCap then .ok (some { ch with queue := ch.queue ++ [m] })
  else .ok none

/-- The write pump takes messages off. -/
def drain (ch : SendChan F) (n : Nat) : SendChan F := { ch with queue := ch.queue.drop n }

end SendChan

/-! ## The hub -/

/-- Clients are known by their pointers, and the table holds the registered ones. -/
structure Hub (F : Type) where
  clients : KeyedMap Nat Bool := ∅
  conn : Nat → Client F
  chan : Nat → SendChan F

/-- What a tick works with: the views built in it, and what it reads once. -/
structure TickInput (F : Type) where
  now : Int
  view : Nat → ViewSnapshot F
  flows : List TrafficFlow
  protoStats : KeyedMap String Nat
  nodeCount : Nat
  /-- Whether a message can be written as JSON. -/
  marshals : OutMsg F → Bool

namespace Hub

def setConn (h : Hub F) (id : Nat) (c : Client F) : Hub F :=
  { h with conn := Function.update h.conn id c }

def setChan (h : Hub F) (id : Nat) (ch : SendChan F) : Hub F :=
  { h with chan := Function.update h.chan id ch }

/-- Queue a message for a client, dropping the client when its buffer is full. -/
def trySend (h : Hub F) (id : Nat) (m : OutMsg F) : Except Panic (Bool × Hub F) := do
  match ← (h.chan id).offer m with
  | some ch => return (true, h.setChan id ch)
  | none =>
      let ch ← (h.chan id).close
      return (false, { h.setChan id ch with clients := h.clients.erase id })

/-- Queue messages one after the other, up to the first that drops the client. -/
def sendEach (marshals : OutMsg F → Bool) (h : Hub F) (id : Nat) :
    List (OutMsg F) → Except Panic (Bool × Hub F)
  | [] => return (true, h)
  | m :: ms =>
      if marshals m then do
        let (sent, h) ← h.trySend id m
        if sent then sendEach marshals h id ms else return (false, h)
      else sendEach marshals h id ms

/-- A raw client gets the protocol table and then the binary topology. -/
def sendRawTopology (inp : TickInput F) (h : Hub F) (id : Nat) (force : Bool) :
    Except Panic (Hub F) := do
  let c := h.conn id
  if !force && decide (inp.now - c.lastRawAt < rawFrameInterval inp.nodeCount) then return h
  let h := h.setConn id { c with lastRawAt := inp.now }
  let (sent, h) ← h.sendEach inp.marshals id [.rawMeta]
  if sent then return (← h.trySend id .rawFrame).2 else return h

section Serve

variable [Float64 F]

/-- The style messages of a client: its delta, in chunks. -/
def styleMsgs (inp : TickInput F) (full : Bool) : Option (ViewDelta F) → List (OutMsg F)
  | none => []
  | some d =>
      let d := if full then { d with protocolStats := some inp.protoStats } else d
      (splitDelta d).map .style

/-- Build a client's frames from its view and queue them: style, positions, counters. -/
def sendView (inp : TickInput F) (h : Hub F) (id : Nat) (flows : List TrafficFlow) (full : Bool) :
    Except Panic (Hub F) := do
  let view := inp.view id
  let (delta, c) := (h.conn id).buildDelta view flows full
  let (sent, h) ← (h.setConn id c).sendEach inp.marshals id (styleMsgs inp full delta)
  if !sent then return h
  match (h.conn id).buildPosFrame view full with
  -- a write past the buffer is recovered, and the client's turn is over
  | (some none, c) => return h.setConn id c
  | (some (some frame), c) =>
      let (sent, h) ← (h.setConn id c).trySend id (.positions frame)
      if sent then sendCounts h view else return h
  | (none, c) => sendCounts (h.setConn id c) view
where
  sendCounts (h : Hub F) (view : ViewSnapshot F) : Except Panic (Hub F) := do
    match (h.conn id).buildCountsFrame view inp.protoStats full inp.now with
    | (some frame, c) => return (← (h.setConn id c).sendEach inp.marshals id [.counts frame]).2
    | (none, c) => return h.setConn id c

/-- The turn of one client in a tick. -/
def serve (inp : TickInput F) (h : Hub F) (id : Nat) : Except Panic (Hub F) :=
  let (full, c) := (h.conn id).consumeNeedsFull
  if c.snapshotCfg.raw then
    -- raw mode ignores the timeline, so its position counts as built
    let c := match c.timelineParams with
      | some tl => c.markTimelineBuilt tl.t tl.window
      | none => c
    sendRawTopology inp (h.setConn id c) id full
  else
    match c.timelineParams with
    | some tl => sendView inp (h.setConn id (c.markTimelineBuilt tl.t tl.window)) id [] full
    | none => sendView inp (h.setConn id c) id inp.flows full

/-- The range over the client table: an entry that has left it is not visited. -/
def tick (inp : TickInput F) (h : Hub F) (order : List Nat) : Except Panic (Hub F) :=
  order.foldlM (fun h id => if id ∈ h.clients then serve inp h id else return h) h

/-- What the hub goroutine handles, and what happens around it. -/
inductive Event (F : Type)
  | register (id : Nat)
  | unregister (id : Nat)
  | resyncAll
  | tick (inp : TickInput F) (order : List Nat)
  | control (id : Nat) (msg : ControlMsg)
  /-- The write pump of a client takes messages off its channel. -/
  | drain (id n : Nat)

def step (h : Hub F) : Event F → Except Panic (Hub F)
  | .register id => return { h with clients := h.clients.insert id true }
  | .unregister id =>
      if id ∈ h.clients then do
        let ch ← (h.chan id).close
        return { h.setChan id ch with clients := h.clients.erase id }
      else return h
  | .resyncAll =>
      return { h with
        conn := fun id =>
          if id ∈ h.clients then { h.conn id with needsFull := true } else h.conn id }
  | .tick inp order => h.tick inp order
  | .control id msg => return h.setConn id ((h.conn id).applyControl msg)
  | .drain id n => return h.setChan id ((h.chan id).drain n)

/-- A hub nobody has connected to yet; every client to come has an open, empty channel. -/
def newHub (cfg : Nat → ViewConfig) : Hub F where
  conn id := { cfg := cfg id }
  chan _ := {}

def run (cfg : Nat → ViewConfig) (l : List (Event F)) : Except Panic (Hub F) :=
  l.foldlM step (newHub cfg)

end Serve

end Hub

end Etherchimp
