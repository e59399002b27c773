import Etherchimp.Capture.Format
import Etherchimp.Graph.PacketReaders

/-!
# The packet inspector

A packet in the live table is opened by its number. The ring may have let go of it since,
and the number comes from a query.
-/

namespace Etherchimp

open Panic

open Wire (Bytes)

/-- A number from a query: what is not one, or is negative, counts as not given. -/
def parseIntParam (v : Bytes) (otherwise : Int) : Int :=
  if v = [] then otherwise
  else
    match atoi v with
    | none => otherwise
    | some n => if 0 ≤ n then n else otherwise

/-- What a handler answers in place of a body. -/
structure HttpError where
  status : Nat
  text : String
  deriving DecidableEq

/-- The views of one packet. -/
structure PacketViews where
  id : Nat
  hexDump : String
  asciiView : String
  deriving DecidableEq

def handlePacketDetail (ps : PacketStore) (v : Bytes) :
    Except Panic (Except HttpError PacketViews) :=
  let id := parseIntParam v 0
  if id ≤ 0 then return .error ⟨400, "missing or invalid id"⟩
  else do
    match ← ps.getByID id with
    | none => return .error ⟨404, "packet no longer in buffer"⟩
    | some pkt =>
        return .ok {
          id := pkt.id
          hexDump := hexDumpText pkt.payload 512
          asciiView := asciiText pkt.payload 2048 }

end Etherchimp
