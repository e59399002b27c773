import Etherchimp.Graph.Filter
import Etherchimp.Graph.PacketStore
import Etherchimp.Lib.Panic

/-!
# Readers of the packet ring

The queries that walk the ring from its tail, and the page of the most recent packets.
Each of them computes its positions anew from the head, so every read is checked here,
of the ring and of the payloads.
-/

namespace Etherchimp

open Panic

open Wire (Bytes)

/-! ## Payloads -/

/-- The payload at `i` spells the text, ASCII letters in either case. -/
def spells (payload lower : Bytes) (i : Nat) : Except Panic Bool :=
  (List.range lower.length).allM fun j => do
    let b ← index payload (i + j)
    let c ← index lower j
    return lowerByte b == c

/-- Where the payload first spells the lowercase text. -/
def payloadContainsAt (payload lower : Bytes) : Except Panic (Option Nat) :=
  if lower.length = 0 ∨ payload.length < lower.length then return none
  else
    (List.range (payload.length - lower.length + 1)).findSomeM? fun i => do
      return if ← spells payload lower i then some i else none

def payloadContains (payload lower : Bytes) : Except Panic Bool := do
  return (← payloadContainsAt payload lower).isSome

/-- A byte as the preview shows it. -/
def printable (c : UInt8) : UInt8 := if 32 ≤ c ∧ c ≤ 126 then c else '.'.toUInt8

/-- Printable context around a match. -/
def payloadPreview (payload : Bytes) (matchPos matchLen : Nat) : Except Panic Bytes := do
  let start := matchPos - 20
  let stop := min (matchPos + matchLen + 20) payload.length
  let preview ← (List.range (stop - start)).mapM fun k => do
    return printable (← index payload (start + k))
  if 50 < preview.length then return (← slice preview 47) ++ ascii "..."
  else return preview

/-- One packet a payload search found. -/
structure PayloadMatch where
  packet : PacketData
  /-- Printable context around the first match. -/
  preview : Bytes
  deriving DecidableEq

namespace PacketStore

/-! ## Pages -/

/-- `packets[(head + i) % maxPackets]` -/
def readAt (ps : PacketStore) (i : Nat) : Except Panic PacketData :=
  index ps.packets.toList ((ps.head + i) % ps.maxPackets)

/-- The `n` packets from `startOffset` on. -/
def collect (ps : PacketStore) (startOffset n : Nat) : Except Panic (List PacketData) :=
  (List.range n).mapM fun i => ps.readAt (startOffset + i)

/-- The most recent `n` packets in chronological order; all of them for a size out of range. -/
def getRecentPackets (ps : PacketStore) (n : Int) : Except Panic (List PacketData) :=
  let n := if n ≤ 0 ∨ ps.size < n then ps.size else n.toNat
  ps.collect (ps.size - n) n

/-! ## Searches from the tail -/

/-- The newest packet that is found. -/
def newest (ps : PacketStore) (found : PacketData → Except Panic Bool) :
    Except Panic (Option PacketData) :=
  (List.range ps.size).reverse.findSomeM? fun i => do
    let p ← ps.readAt i
    return if ← found p then some p else none

/-- The newest packet whose source or destination is in the set. -/
def mostRecentForIPs (ps : PacketStore) (ipSet : String → Bool) :
    Except Panic (Option PacketData) :=
  ps.newest fun p => return ipSet p.srcIP || ipSet p.dstIP

/-- The packet of that number, if it is still in the ring. -/
def getByID (ps : PacketStore) (id : Int) : Except Panic (Option PacketData) :=
  ps.newest fun p => return (p.id : Int) = id

/-- The newest packet whose payload contains the text. -/
def mostRecentContaining [RuneCase] (ps : PacketStore) (text : Bytes) :
    Except Panic (Option PacketData) :=
  if text = [] then return none
  else ps.newest fun p => payloadContains p.payload (lowerText text)

/-- The scan over the places still to visit, with the matches so far. -/
def scanPayloads (ps : PacketStore) (lower : Bytes) (limit : Int) :
    List Nat → List PayloadMatch → Except Panic (List PayloadMatch)
  | [], found => return found
  | i :: rest, found =>
    if limit ≤ found.length then return found
    else do
      let p ← ps.readAt i
      match ← payloadContainsAt p.payload lower with
      | none => ps.scanPayloads lower limit rest found
      | some pos =>
        let preview ← payloadPreview p.payload pos lower.length
        ps.scanPayloads lower limit rest (found ++ [⟨p, preview⟩])

/-- At most `limit` packets whose payload contains the text, newest first. -/
def searchPayload [RuneCase] (ps : PacketStore) (text : Bytes) (limit : Int) :
    Except Panic (List PayloadMatch) :=
  if text = [] ∨ limit ≤ 0 then return []
  else ps.scanPayloads (lowerText text) limit (List.range ps.size).reverse []

end PacketStore

end Etherchimp
