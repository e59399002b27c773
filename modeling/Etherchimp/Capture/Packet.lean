import Etherchimp.Lib.KeyedMap

/-!
# What the capture layer hands to the graph

The protocol catalog and the decoded packet, as far as the graph, the store and
the views read them.
-/

namespace Etherchimp

/-- A detected protocol with its display properties. -/
structure Protocol where
  name : String
  color : String := "#95a5a6"
  layer : String := "L4 · Transport"
  layerNum : Nat := 4
  discovery : Bool := false
  /-- The bare transports, which lose to a more specific protocol. -/
  generic : Bool := false
  decap : Bool := false
  l2Endpoints : Bool := false
  defaultVisible : Bool := false
  deriving DecidableEq

def protocolTCP : Protocol :=
  { name := "TCP", color := "#3498db", generic := true, defaultVisible := true }

/-- The active catalog: the ordered list and the name index over it. -/
structure Registry where
  all : List Protocol
  byName : KeyedMap String Protocol

/-- Index a catalog by name; a repeated name keeps its last entry. -/
def Registry.ofList (all : List Protocol) : Registry where
  all := all
  byName := all.foldl (fun m p => m.insert p.name p) ∅

/-- Whether a name is one of the generic transports of the active catalog. -/
def isGenericName (reg : Registry) (name : String) : Bool :=
  match reg.byName.lookup name with
  | some p => p.generic
  | none => false

/-- Bound on the bytes of a frame that are kept. -/
def maxPayloadCopy : Nat := 16 * 1024

/-- One decoded packet. -/
structure PacketInfo where
  srcIP : String
  dstIP : String
  srcMAC : String := ""
  dstMAC : String := ""
  srcPort : UInt16 := 0
  dstPort : UInt16 := 0
  protocol : Protocol := protocolTCP
  length : Nat
  /-- The first bytes of the frame. -/
  payload : List UInt8 := []
  /-- The 802.1Q tag, 0 on an untagged frame. -/
  vlanID : UInt16 := 0
  srcName : String := ""
  dstName : String := ""
  deviceKind : String := ""
  deviceInfo : String := ""

end Etherchimp
