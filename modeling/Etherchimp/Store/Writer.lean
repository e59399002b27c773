import Etherchimp.Lib.Run
import Etherchimp.Store.Aggregator

/-!
# The writer

One goroutine owns every SQL write. It selects between a queued packet event, the
flush ticker, a `Flush` request and the closing of the store; the last two drain
the queue first. A flush snapshots the aggregator and writes the snapshot, with
the packet rows pending, in one transaction.

The step relation is as fine as the code's own atomicity: recording a packet in
the aggregates, sending its index row, receiving one event, taking the snapshot
of a flush and committing its transaction are separate steps, so that the ingest
goroutines and `EndCapture` may act between any two of the writer's.
-/

namespace Etherchimp

/-- Packet rows that trigger an early flush. -/
def batchSize : Nat := 5000

/-- Packet rows at which a drain stops. -/
def drainMax : Nat := 20000

/-- The capacity of the events channel. -/
def eventsCap : Nat := 16384

/-! ## The database -/

/-- A row of `packets`; the times are microseconds. -/
structure PacketRow where
  captureID : Int
  ts : Int
  src : String
  dst : String
  srcPort : UInt16
  dstPort : UInt16
  protocol : String
  length : Nat
  vlan : UInt16
  pcapOffset : Option Int
  deriving DecidableEq

structure NodeRow where
  hostname : String
  packetCount : Nat
  byteCount : Nat
  firstSeen : Int
  lastSeen : Int

structure EdgeRow where
  fromID : String
  toID : String
  protocol : String
  packetCount : Nat
  byteCount : Nat
  fwdPackets : Nat
  revPackets : Nat
  fwdBytes : Nat
  revBytes : Nat
  firstSeen : Int
  lastSeen : Int

structure BucketRow where
  packets : Nat
  bytes : Nat
  fwdPackets : Nat
  revPackets : Nat
  fwdBytes : Nat
  revBytes : Nat

/-- The four tables the writer writes, `packets` in insertion order. -/
structure DB where
  packets : List PacketRow
  nodes : KeyedMap NodeKey NodeRow
  edges : KeyedMap EdgeKey EdgeRow
  flowBuckets : KeyedMap BucketKey BucketRow

def emptyDB : DB where
  packets := []
  nodes := ∅
  edges := ∅
  flowBuckets := ∅

def PacketEvent.row (ev : PacketEvent) : PacketRow where
  captureID := ev.captureID
  ts := ev.unixMicro
  src := ev.src
  dst := ev.dst
  srcPort := ev.srcPort
  dstPort := ev.dstPort
  protocol := ev.proto
  length := ev.length
  vlan := ev.vlan
  pcapOffset := if 0 ≤ ev.pcapOffset then some ev.pcapOffset else none

/-- `INSERT INTO nodes ... ON CONFLICT`: absolute counters, the first seen time kept. -/
def upsertNode (old : Option NodeRow) (n : NodeAgg) : NodeRow :=
  match old with
  | none => ⟨n.hostname, n.packets, n.bytes, n.first, n.last⟩
  | some row =>
      { row with
        hostname := if n.hostname = "" then row.hostname else n.hostname
        packetCount := n.packets
        byteCount := n.bytes
        lastSeen := n.last }

/-- `INSERT INTO edges ... ON CONFLICT`. -/
def upsertEdge (old : Option EdgeRow) (e : EdgeAgg) : EdgeRow :=
  match old with
  | none => ⟨e.fromID, e.toID, e.proto, e.packets, e.bytes, e.fwdP, e.revP, e.fwdB, e.revB,
      e.first, e.last⟩
  | some row =>
      { row with
        protocol := e.proto
        packetCount := e.packets
        byteCount := e.bytes
        fwdPackets := e.fwdP
        revPackets := e.revP
        fwdBytes := e.fwdB
        revBytes := e.revB
        lastSeen := e.last }

/-- `INSERT INTO flow_buckets ... ON CONFLICT`: the deltas are added. -/
def upsertBucket (old : Option BucketRow) (b : BucketAgg) : BucketRow :=
  match old with
  | none => ⟨b.packets, b.bytes, b.fwdP, b.revP, b.fwdB, b.revB⟩
  | some row =>
      ⟨row.packets + b.packets, row.bytes + b.bytes, row.fwdPackets + b.fwdP,
        row.revPackets + b.revP, row.fwdBytes + b.fwdB, row.revBytes + b.revB⟩

/-- One row of the bucket statement; its protocol column is the aggregate's. -/
def writeBucket (rows : KeyedMap BucketKey BucketRow) (bk : BucketKey) (b : BucketAgg) :
    KeyedMap BucketKey BucketRow :=
  let key : BucketKey := { bk with proto := b.proto }
  rows.insert key (upsertBucket (rows.lookup key) b)

/-- The effect of one committed transaction. -/
def DB.flushTx (db : DB) (pkts : List PacketEvent) (fb : FlushBatch) : DB where
  packets := db.packets ++ pkts.map PacketEvent.row
  nodes := KeyedMap.upsertAll upsertNode db.nodes fb.nodes
  edges := KeyedMap.upsertAll upsertEdge db.edges fb.edges
  flowBuckets := fb.buckets.entries.foldl (fun rows e => writeBucket rows e.1 e.2) db.flowBuckets

/-! ## The store -/

/-- Where the writer goroutine is; `stop` says whether it was told to close. -/
inductive Phase
  | select
  | drain (stop : Bool)
  /-- The snapshot is taken and the transaction is open. -/
  | flushing (fb : FlushBatch) (stop : Bool)
  | stopped

structure Store where
  agg : Aggregator
  /-- The events channel. -/
  events : List PacketEvent
  pending : List PacketEvent
  phase : Phase
  db : DB

def openStore (bucketSecs : Int) : Store where
  agg := newAggregator bucketSecs
  events := []
  pending := []
  phase := .select
  db := emptyDB

namespace Store

/-- The writer loops, or returns when the store is closing. -/
def finish (stop : Bool) : Phase := if stop then .stopped else .select

/-- Start a flush; with nothing to write there is no transaction. -/
def beginFlush (s : Store) (stop : Bool) : Store :=
  let (fb, agg) := s.agg.snapshot
  if s.pending = [] ∧ fb.Empty then { s with agg := agg, phase := finish stop }
  else { s with agg := agg, phase := .flushing fb stop }

/-- One receive of a drain loop, which ends at the cap or when the channel is empty. -/
def drainOne (s : Store) (stop : Bool) : Store :=
  if s.pending.length < drainMax then
    match s.events with
    | ev :: rest => { s with pending := s.pending ++ [ev], events := rest }
    | [] => s.beginFlush stop
  else s.beginFlush stop

/-- What the goroutines around the store do. -/
inductive Action
  /-- The aggregate half of `RecordPacket`. -/
  | record (ev : PacketEvent)
  /-- The index half of `RecordPacket`, for the packets the sampling lets through. -/
  | send (ev : PacketEvent)
  | receive
  | tick
  /-- The writer takes up a `Flush`. -/
  | flushReq
  /-- The writer sees that `Close` was called. -/
  | done
  | drain
  | commit (ok : Bool)
  | dropCapture (id : Int)

/-- One step; an action that is not enabled changes nothing. -/
def step (reg : Registry) (s : Store) : Action → Store
  | .record ev => if ev.captureID = 0 then s else { s with agg := s.agg.apply reg ev }
  | .send ev =>
      if ev.captureID = 0 then s
      else if s.events.length < eventsCap then { s with events := s.events ++ [ev] }
      else { s with agg := s.agg.droppedPacketRow }
  | .receive =>
      match s.phase, s.events with
      | .select, ev :: rest =>
          let s := { s with pending := s.pending ++ [ev], events := rest }
          if batchSize ≤ s.pending.length then s.beginFlush false else s
      | _, _ => s
  | .tick =>
      match s.phase with
      | .select => s.beginFlush false
      | _ => s
  | .flushReq =>
      match s.phase with
      | .select => { s with phase := .drain false }
      | _ => s
  | .done =>
      match s.phase with
      | .select => { s with phase := .drain true }
      | _ => s
  | .drain =>
      match s.phase with
      | .drain stop => s.drainOne stop
      | _ => s
  | .commit ok =>
      match s.phase with
      | .flushing fb stop =>
          -- the pending rows are let go whether or not the transaction committed
          { s with
            db := if ok then s.db.flushTx s.pending fb else s.db
            pending := []
            phase := finish stop }
      | _ => s
  | .dropCapture id => { s with agg := s.agg.dropCapture id }

/-- The store after a sequence of steps on a fresh one. -/
def run (reg : Registry) (bucketSecs : Int) (l : List Action) : Store :=
  Run.exec (step reg) (openStore bucketSecs) l

end Store

end Etherchimp
