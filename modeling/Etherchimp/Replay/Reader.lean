import Etherchimp.Lib.Search
import Etherchimp.Store.Query

/-!
# Replaying a capture file

A reader holds the decoded packets of a file with their timestamps and cuts them
at a time measured from the first one. When the file was stored before, the
replay handler reads the aggregates of the same offset from the flow buckets
instead, cut at a whole bucket second measured from the first bucket.
-/

namespace Etherchimp

/-- A packet with its timestamp, in nanoseconds since the epoch. -/
structure PacketWithTime where
  info : PacketInfo
  timestamp : Int

/-- The packets of a file, all loaded. -/
structure Reader where
  packets : List PacketWithTime
  startTime : Int
  endTime : Int

/-- Keep the frames that decode; the first of them sets the start time. -/
def loadPackets (frames : List (Option PacketInfo × Int)) : Reader :=
  frames.foldl (fun r frame =>
    match frame with
    | (none, _) => r
    | (some info, timestamp) =>
        { packets := r.packets ++ [⟨info, timestamp⟩]
          startTime := if r.packets = [] then timestamp else r.startTime
          endTime := timestamp })
    { packets := [], startTime := 0, endTime := 0 }

/--
A replay offset, a floating-point number of seconds, as the two conversions made
of it read it.
-/
structure Offset where
  /-- `int64(offsetSeconds)`, truncated. -/
  int64 : Int
  /-- `time.Duration(offsetSeconds * float64(time.Second))`, in nanoseconds. -/
  duration : Int

namespace Reader

/-- All packets up to a given offset, found by binary search. -/
def getPacketsUpToTime (r : Reader) (offset : Offset) : List PacketWithTime :=
  if r.packets = [] then []
  else
    let targetTime := r.startTime + offset.duration
    let idx := Search.search r.packets.length fun i =>
      (r.packets[i]?).any fun p => !decide (p.timestamp ≤ targetTime)
    r.packets.take idx

/-- The total duration of the capture, in nanoseconds. -/
def getDuration (r : Reader) : Int := r.endTime - r.startTime

end Reader

/-- The event that the ingest records for a packet, under the names it resolved. -/
def PacketWithTime.event (captureID : Int) (srcHost dstHost : String) (p : PacketWithTime) :
    PacketEvent where
  captureID := captureID
  ts := p.timestamp
  src := p.info.srcIP
  dst := p.info.dstIP
  srcHost := srcHost
  dstHost := dstHost
  srcPort := p.info.srcPort
  dstPort := p.info.dstPort
  proto := p.info.protocol.name
  length := p.info.length
  vlan := p.info.vlanID

/--
The aggregates `replayFromCache` reads at an offset. A first bucket of 0 stands
for a capture without buckets: then it reads nothing. What the handler does with them is
not modelled; when no node is among them it parses the file after all.
-/
def replayFromCache (reg : Registry) (db : DB) (captureID : Int) (offset : Offset) :
    Option (List StoredNode × List StoredEdge) :=
  let first := (db.bucketBounds captureID).1
  if first = 0 then none
  else some (db.windowAggregates reg captureID first (first + offset.int64 + 1))

end Etherchimp
