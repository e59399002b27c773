import Etherchimp.Browser.WireText

/-!
# The page's reader of raw topology frames

The renderer takes link indices as single-precision floats, so an index is rounded to
the nearest one on the way.
-/

namespace Etherchimp

/-- The single-precision float nearest to a natural number, ties to even. -/
def toFloat32 (n : Nat) : Nat :=
  let unit := 2 ^ (n.log2 + 1 - 24)
  let q := n / unit
  let r := n % unit
  if unit < 2 * r ∨ unit = 2 * r ∧ q % 2 = 1 then (q + 1) * unit else q * unit

/-- What the renderer is handed. -/
structure RawFrame where
  ids : List String := []
  tiers : List UInt8 := []
  flags : List UInt8 := []
  /-- Source and target of each link, flat. -/
  links : List Nat := []
  protoIdx : List UInt8 := []
  deriving DecidableEq

/-- Read one node at the offset. -/
def readRawNode (buf : Wire.Bytes) (s : Nat × RawFrame) : Option (Nat × RawFrame) := do
  let (off, f) := s
  let idLen ← Wire.read buf off 2
  let off := off + 2
  let id ← Wire.read buf off (Wire.ofLE idLen)
  let id ← decodeText id
  let off := off + Wire.ofLE idLen
  let tier ← Wire.byte buf off
  let flags ← Wire.byte buf (off + 1)
  return (off + 2,
    { f with ids := f.ids ++ [id], tiers := f.tiers ++ [tier], flags := f.flags ++ [flags] })

/-- Read one link at the offset. -/
def readRawLink (buf : Wire.Bytes) (s : Nat × RawFrame) : Option (Nat × RawFrame) := do
  let (off, f) := s
  let a ← Wire.read buf off 4
  let b ← Wire.read buf (off + 4) 4
  let proto ← Wire.byte buf (off + 8)
  return (off + 9,
    { f with
      links := f.links ++ [toFloat32 (Wire.ofLE a), toFloat32 (Wire.ofLE b)]
      protoIdx := f.protoIdx ++ [proto] })

/-- Do a read so many times. -/
def readTimes (read : Nat × RawFrame → Option (Nat × RawFrame)) :
    Nat → Nat × RawFrame → Option (Nat × RawFrame)
  | 0, s => some s
  | n + 1, s => (read s).bind (readTimes read n)

/-- Read a frame, whose type has been looked at: the arrays, and the offset after the last byte. -/
def applyRawTopologyFrame (buf : Wire.Bytes) : Option (Nat × RawFrame) := do
  let n ← Wire.read buf 1 4
  let (off, f) ← readTimes (readRawNode buf) (Wire.ofLE n) (5, {})
  let m ← Wire.read buf off 4
  readTimes (readRawLink buf) (Wire.ofLE m) (off + 4, f)

end Etherchimp
