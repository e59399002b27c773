import Etherchimp.Graph.PacketStore
import Etherchimp.Store.Query

/-!
# The history endpoint

The persistent packet index, served in pages of the shape of the live packet
table: the packets and the cursor to ask for the next ones with.
-/

namespace Etherchimp

/-- The body of an answer. -/
structure PacketsResponse where
  packets : List PacketData
  cursor : Nat
  deriving DecidableEq

/-- An indexed row in the shape of the packet table; its time is in microseconds. -/
def storePacketToData (p : IndexedRow) : PacketData where
  id := p.id
  timestamp := p.row.ts * 1000
  srcIP := p.row.src
  dstIP := p.row.dst
  srcPort := p.row.srcPort
  dstPort := p.row.dstPort
  protocol := p.row.protocol
  length := p.row.length
  vlanID := p.row.vlan

/-- The parameters a client keeps while it pages. -/
structure HistoryQuery where
  captureID : Int
  fromMicros : Int := 0
  toMicros : Int := 0
  node : String := ""
  limit : Int := 200

/-- `handleHistoryPackets`; the cursor is rebuilt from the rows of the page. -/
def handleHistoryPackets (t : PacketTable) (q : HistoryQuery) (since : Nat) : PacketsResponse :=
  let rows := t.queryPackets q.captureID q.fromMicros q.toMicros q.node since q.limit
  { packets := rows.map storePacketToData
    cursor := rows.foldl (fun _ p => p.id) 0 }

end Etherchimp
