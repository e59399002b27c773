import Etherchimp.Capture.Packet

/-!
# Styled views and when two entries look the same

What the hub sends is a styled view, built anew every tick. Two entries are render
equal when a browser would draw them alike: sizes and widths are compared by bucket
and the raw counters are left out.

The server computes sizes and positions in floating point. `Float64` lists the
operations it uses.
-/

namespace Etherchimp

/-- The `float64` arithmetic of the server, and the `float32` a position is sent as. -/
class Float64 (F : Type) where
  ofInt : Int → F
  half : F
  add : F → F → F
  mul : F → F → F
  log : F → F
  /-- `int(math.Round(x))` -/
  round : F → Int
  /-- `x == y`, false when either is NaN -/
  eq : F → F → Bool
  /-- `math.Float32bits(float32(x))` -/
  float32bits : F → UInt32

instance : Float64 Float where
  ofInt := Float.ofInt
  half := 0.5
  add x y := x + y
  mul x y := x * y
  log := Float.log
  round x := x.round.toInt64.toInt
  eq x y := x == y
  float32bits x := x.toFloat32.toBits

/-- Whole numbers, for coordinates and sizes that are whole: a stand-in that evaluates. -/
instance : Float64 Int where
  ofInt n := n
  half := 1
  add x y := x + y
  mul x y := x * y
  log x := x.toNat.log2
  round x := x
  eq x y := decide (x = y)
  float32bits x := UInt32.ofNat (x % 2 ^ 32).toNat

variable {F : Type}

structure ViewNode (F : Type) where
  id : String
  label : String := ""
  ips : List String := []
  packetCount : Int := 0
  byteCount : Int := 0
  isGroup : Bool := false
  value : F
  colorTier : Int := 0
  shape : String := ""
  color : String := ""
  role : String := ""
  icon : String := ""
  deviceInfo : String := ""
  x : F
  y : F
  pinned : Bool := false
  isSubnet : Bool := false
  hostCount : Int := 0
  isTail : Bool := false

structure ViewEdge (F : Type) where
  id : String
  fromID : String
  toID : String
  protocol : Protocol
  packetCount : Int := 0
  byteCount : Int := 0
  forwardPackets : Int := 0
  reversePackets : Int := 0
  forwardBytes : Int := 0
  reverseBytes : Int := 0
  width : F

structure SubnetIsland (F : Type) where
  cidr : String
  vlanID : UInt16 := 0
  x : F
  y : F
  radius : F

structure ViewSnapshot (F : Type) where
  nodes : List (ViewNode F)
  edges : List (ViewEdge F)
  subnetIslands : List (SubnetIsland F) := []
  /-- A collapsed host's subnet supernode. -/
  hostToSuper : KeyedMap String String := ∅

/-- Distinct node ids and distinct edge ids. -/
structure ViewSnapshot.Distinct (view : ViewSnapshot F) : Prop where
  nodes : (view.nodes.map ViewNode.id).Nodup
  edges : (view.edges.map ViewEdge.id).Nodup

instance (view : ViewSnapshot F) : Decidable view.Distinct :=
  decidable_of_iff ((view.nodes.map ViewNode.id).Nodup ∧ (view.edges.map ViewEdge.id).Nodup)
    ⟨fun h => ⟨h.1, h.2⟩, fun h => ⟨h.nodes, h.edges⟩⟩

variable [Float64 F]

/-! ## Render equality -/

/-- Quantize a node's size driver into about 5% steps. -/
def valueBucket (v : F) : Int :=
  Float64.round (Float64.mul (Float64.log (Float64.add v (Float64.ofInt 1))) (Float64.ofInt 20))

variable (F) in
/-- Quantize an edge's rendered width to 0.25px steps. -/
def widthBucket (packetCount : Int) : Int :=
  let log : F := Float64.log (Float64.add (Float64.ofInt packetCount) (Float64.ofInt 1))
  Float64.round (Float64.mul (Float64.add (Float64.mul log Float64.half) (Float64.ofInt 1))
    (Float64.ofInt 4))

/-- Whether two nodes render identically. -/
def nodeRenderEqual (a b : ViewNode F) : Bool :=
  a.id = b.id ∧ a.label = b.label ∧ a.isGroup = b.isGroup ∧ a.colorTier = b.colorTier
    ∧ a.shape = b.shape ∧ a.color = b.color ∧ a.role = b.role ∧ a.icon = b.icon
    ∧ a.deviceInfo = b.deviceInfo ∧ a.pinned = b.pinned ∧ a.isSubnet = b.isSubnet
    ∧ a.hostCount = b.hostCount ∧ valueBucket a.value = valueBucket b.value ∧ a.ips = b.ips

/-- Whether two edges render identically. -/
def edgeRenderEqual (a b : ViewEdge F) : Bool :=
  a.id = b.id ∧ a.fromID = b.fromID ∧ a.toID = b.toID ∧ a.protocol = b.protocol
    ∧ widthBucket F a.packetCount = widthBucket F b.packetCount

/-- What a node is drawn from. -/
def ViewNode.render (n : ViewNode F) :=
  (n.id, n.label, n.isGroup, n.colorTier, n.shape, n.color, n.role, n.icon, n.deviceInfo, n.pinned,
    n.isSubnet, n.hostCount, valueBucket n.value, n.ips)

/-- What an edge is drawn from. -/
def ViewEdge.render (e : ViewEdge F) :=
  (e.id, e.fromID, e.toID, e.protocol, widthBucket F e.packetCount)

/-! Render equality is an equivalence, since it compares one projection. -/

theorem nodeRenderEqual_iff {a b : ViewNode F} : nodeRenderEqual a b = true ↔ a.render = b.render := by
  simp only [nodeRenderEqual, ViewNode.render, decide_eq_true_eq, Prod.mk.injEq]

theorem edgeRenderEqual_iff {a b : ViewEdge F} : edgeRenderEqual a b = true ↔ a.render = b.render := by
  simp only [edgeRenderEqual, ViewEdge.render, decide_eq_true_eq, Prod.mk.injEq]

theorem nodeRenderEqual_refl (a : ViewNode F) : nodeRenderEqual a a = true :=
  nodeRenderEqual_iff.mpr rfl

theorem nodeRenderEqual_trans {a b c : ViewNode F} (h : nodeRenderEqual a b = true)
    (h' : nodeRenderEqual b c = true) : nodeRenderEqual a c = true :=
  nodeRenderEqual_iff.mpr ((nodeRenderEqual_iff.mp h).trans (nodeRenderEqual_iff.mp h'))

theorem edgeRenderEqual_refl (a : ViewEdge F) : edgeRenderEqual a a = true :=
  edgeRenderEqual_iff.mpr rfl

theorem edgeRenderEqual_trans {a b c : ViewEdge F} (h : edgeRenderEqual a b = true)
    (h' : edgeRenderEqual b c = true) : edgeRenderEqual a c = true :=
  edgeRenderEqual_iff.mpr ((edgeRenderEqual_iff.mp h).trans (edgeRenderEqual_iff.mp h'))

end Etherchimp
