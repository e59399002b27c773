import Mathlib.Data.List.Sort
import Etherchimp.Graph.Ops
import Etherchimp.Graph.Subnet
import Etherchimp.Lib.Grouping
import Etherchimp.Lib.Runtime
import Etherchimp.Server.View

/-!
# The layout engine

Positions are computed on the server, by one `LayoutEngine` a client, stepped over
the nodes that client is shown. The circular, hierarchical, subnet and solar layouts
are recomputed when the node set changes. The force layout, and the gravity layout
over it, relax a little at each step and stop when a step moves nothing by as much
as `forceEpsilon`. Every table of the engine is keyed by the mode.
-/

namespace Etherchimp

/-- The functions of package `math` the layouts and the views use. -/
class FloatMath (F : Type) extends Float64 F where
  sub : F → F → F
  div : F → F → F
  lt : F → F → Bool
  le : F → F → Bool
  min : F → F → F
  max : F → F → F
  hypot : F → F → F
  sqrt : F → F
  cos : F → F
  sin : F → F
  floor : F → F
  ceil : F → F
  log1p : F → F
  /-- `math.Round(x)` -/
  roundTo : F → F
  pi : F
  maxFloat64 : F
  /-- The literal `m` times ten to the `-e`. -/
  decimal : Nat → Nat → F
  /-- `int(x)` -/
  trunc : F → Int

instance : FloatMath Float where
  sub x y := x - y
  div x y := x / y
  lt x y := decide (x < y)
  le x y := decide (x ≤ y)
  min x y := if x < y then x else y
  max x y := if x < y then y else x
  hypot x y :=
    let p := if x.abs < y.abs then y.abs else x.abs
    let q := if x.abs < y.abs then x.abs else y.abs
    if p == 0 then 0 else p * (1 + q / p * (q / p)).sqrt
  sqrt := Float.sqrt
  cos := Float.cos
  sin := Float.sin
  floor := Float.floor
  ceil := Float.ceil
  log1p x := if 1 + x == 1 then x else (1 + x).log * x / (1 + x - 1)
  roundTo := Float.round
  pi := 3.141592653589793
  maxFloat64 := 1.7976931348623157e308
  decimal m e := Float.ofScientific m true e
  trunc x := x.toInt64.toInt

/-- A 2D position in graph coordinates. -/
structure Vec (F : Type) where
  x : F
  y : F

structure LayoutEngine (F : Type) where
  positions : KeyedMap String (KeyedMap String (Vec F)) := ∅
  /-- Converged, or computed. -/
  settled : KeyedMap String Bool := ∅
  /-- Seeded positions, which no step changes. -/
  frozen : KeyedMap String Bool := ∅
  temp : KeyedMap String F := ∅
  /-- The signature of the node set laid out last. -/
  sig : KeyedMap String UInt64 := ∅
  pins : KeyedMap String (KeyedMap String (Vec F)) := ∅
  islands : KeyedMap String (List (SubnetIsland F)) := ∅
  /-- What the seeded generator still has to yield. -/
  rng : Nat → F
  sizeHist : KeyedMap String (List Nat) := ∅
  burst : KeyedMap String Bool := ∅
  stableSteps : KeyedMap String Nat := ∅
  /-- The nodes placed during the current burst. -/
  burstNew : KeyedMap String (KeyedMap String Bool) := ∅
  gravitySig : UInt64 := 0
  gravityAnchors : Option (KeyedMap String (Vec F)) := none
  gravityHubPins : KeyedMap String (Vec F) := ∅
  /-- The largest move of the last relaxation: a local of the source, kept to speak of it. -/
  moved : KeyedMap String F := ∅

def newLayoutEngine {F : Type} (rng : Nat → F) : LayoutEngine F := { rng := rng }

section Layout

variable {F : Type} [FloatMath F]

local instance layoutAdd : Add F := ⟨Float64.add⟩
local instance layoutSub : Sub F := ⟨FloatMath.sub⟩
local instance layoutMul : Mul F := ⟨Float64.mul⟩
local instance layoutDiv : Div F := ⟨FloatMath.div⟩
local instance layoutOfNat (n : Nat) : OfNat F n := ⟨Float64.ofInt n⟩

open FloatMath Float64

def forceIterationsPerStep : Nat := 6
/-- The move below which a step counts as settled. -/
def forceEpsilon : F := half
def forceIdealLen : F := 140
def forceInitialTemp : F := 300
def forceReheatTemp : F := 70
def forceGravity : F := 5
def collisionPad : F := 34
def collisionStrength : F := decimal 12 1
def burstWindowSteps : Nat := 10
def burstGrowthAbs : Int := 25
def burstGrowthPct : F := decimal 10 2
def burstGrowthPctFloor : Int := 10
def burstStableSteps : Nat := 10
def burstTempFactor : F := decimal 3 1

def Vec.zero : Vec F := ⟨0, 0⟩

/-- `q == p` on two vectors. -/
def Vec.eq (p q : Vec F) : Bool := Float64.eq p.x q.x && Float64.eq p.y q.y

def Vec.plus (p d : Vec F) : Vec F := ⟨p.x + d.x, p.y + d.y⟩

def Vec.minus (p d : Vec F) : Vec F := ⟨p.x - d.x, p.y - d.y⟩

/-- One number in `[0, 1)` from the generator, and what it yields next. -/
def draw (rng : Nat → F) : F × (Nat → F) := (rng 0, fun i => rng (i + 1))

/-! ## The node set -/

def sortedIDs (nodes : List Node) : List String := (nodes.map Node.ip).insertionSort (· ≤ ·)

/-- One byte of FNV-1a. -/
def fnvByte (h : UInt64) (b : UInt8) : UInt64 := (h ^^^ b.toUInt64) * 1099511628211

def fnvString (h : UInt64) (s : String) : UInt64 := s.toByteArray.data.toList.foldl fnvByte h

def fnvOffset : UInt64 := 14695981039346656037

/-- An order-independent hash of the node ids. -/
def nodeSetSig (nodes : List Node) : UInt64 :=
  (sortedIDs nodes).foldl (fun h id => fnvByte (fnvString h id) 124) fnvOffset

namespace LayoutEngine

/-! ## Reading the engine -/

/-- The stored position, zero when there is none. -/
def position (le : LayoutEngine F) (mode id : String) : Vec F :=
  match le.positions.lookup mode with
  | some m => (m.lookup id).getD Vec.zero
  | none => Vec.zero

/-- Install a computed position set, which no step will change. -/
def seedPositions (le : LayoutEngine F) (mode : String) (pos : KeyedMap String (Vec F)) :
    LayoutEngine F :=
  { le with
    positions := le.positions.insert mode pos
    settled := le.settled.insert mode true
    frozen := le.frozen.insert mode true }

def islandsOf (le : LayoutEngine F) (mode : String) : List (SubnetIsland F) :=
  (le.islands.lookup mode).getD []

def isSettled (le : LayoutEngine F) (mode : String) : Bool := (le.settled.lookup mode).getD false

/-- Whether some active mode still needs ticking. -/
def unsettled (le : LayoutEngine F) (modes : List String) : Bool :=
  modes.any fun mode => !le.isSettled mode

/-- The node set is the one laid out last. -/
def upToDate (le : LayoutEngine F) (mode : String) (raw : RawSnapshot) : Bool :=
  (le.sig.lookup mode).getD 0 == nodeSetSig raw.nodes && (le.positions.lookup mode).isSome

/-- Store a finished layout. -/
def laidOut (le : LayoutEngine F) (mode : String) (pos : KeyedMap String (Vec F)) : LayoutEngine F :=
  { le with
    positions := le.positions.insert mode pos
    settled := le.settled.insert mode true }

def markSettled (le : LayoutEngine F) (mode : String) : LayoutEngine F :=
  { le with settled := le.settled.insert mode true }

def setSig (le : LayoutEngine F) (mode : String) (raw : RawSnapshot) : LayoutEngine F :=
  { le with sig := le.sig.insert mode (nodeSetSig raw.nodes) }

/-! ## The circular layout -/

def circlePositions (raw : RawSnapshot) : KeyedMap String (Vec F) :=
  let ids := sortedIDs raw.nodes
  let n : F := ofInt ids.length
  let radius := FloatMath.max 300 (n * 8)
  ids.zipIdx.foldl (fun pos (id, i) =>
    let a := 2 * pi * ofInt i / FloatMath.max 1 n
    pos.insert id ⟨radius * cos a, radius * sin a⟩) ∅

def layoutCircular (le : LayoutEngine F) (raw : RawSnapshot) : LayoutEngine F :=
  let mode := "circular"
  if le.upToDate mode raw then le.markSettled mode
  else (le.setSig mode raw).laidOut mode (circlePositions raw)

/-! ## The hierarchical layout -/

/-- Bytes in, bytes out and talk partners. -/
structure Degrees where
  inc : KeyedMap String Nat := ∅
  out : KeyedMap String Nat := ∅
  conn : KeyedMap String (KeyedMap String Bool) := ∅

def Degrees.addConn (d : Degrees) (a b : String) : Degrees :=
  { d with conn := d.conn.insert a (((d.conn.lookup a).getD ∅).insert b true) }

def degreesOf (raw : RawSnapshot) : Degrees :=
  raw.edges.foldl (fun d e =>
    let d := { d with
      out := d.out.insert e.fromID ((d.out.lookup e.fromID).getD 0 + e.packetCount)
      inc := d.inc.insert e.toID ((d.inc.lookup e.toID).getD 0 + e.packetCount) }
    (d.addConn e.fromID e.toID).addConn e.toID e.fromID) {}

def hierarchyScore (d : Degrees) (id : String) : F :=
  let inn := (d.inc.lookup id).getD 0
  let total := inn + (d.out.lookup id).getD 0
  if 0 < total then
    let ratio : F := ofInt inn / ofInt total
    let vol := log (ofInt total + 1)
    let cy := log (ofInt ((d.conn.lookup id).getD ∅).entries.length + 1)
    ratio * 50 + vol * 30 + cy * 20
  else 0

def scoreBefore (a b : String × F) : Bool :=
  if Float64.eq a.2 b.2 then a.1 < b.1 else FloatMath.lt b.2 a.2

def hierarchyPositions (go : Runtime) (raw : RawSnapshot) : KeyedMap String (Vec F) :=
  let d := degreesOf raw
  let arr := go.sortSlice scoreBefore (raw.nodes.map fun n => (n.ip, hierarchyScore (F := F) d n.ip))
  let n := arr.length
  let numLevels := Max.max 1 (trunc (FloatMath.min (ceil (ofInt n / 5)) 10 : F)).toNat
  let perLevel := Max.max 1 (trunc (ceil (ofInt n / ofInt numLevels) : F)).toNat
  arr.zipIdx.foldl (fun pos (e, i) =>
    let level := i / perLevel
    let inLevel := i % perLevel
    let nodesThis : Int :=
      if n < (level + 1) * perLevel then (n : Int) - level * perLevel else perLevel
    let y : F := ofInt level * 150
    let x := (ofInt inLevel - ofInt (nodesThis - 1) / 2) * 120
    pos.insert e.1 ⟨x, y⟩) ∅

def layoutHierarchical (go : Runtime) (le : LayoutEngine F) (raw : RawSnapshot) : LayoutEngine F :=
  let mode := "hierarchical"
  if le.upToDate mode raw then le.markSettled mode
  else (le.setSig mode raw).laidOut mode (hierarchyPositions go raw)

/-! ## The subnet layout -/

/-- Node ids by /24, in snapshot order. -/
def subnetGroups (raw : RawSnapshot) : KeyedMap String (List String) :=
  Grouping.groups
    (fun n => if primarySubnet24 n = "" then "unknown" else primarySubnet24 n) Node.ip raw.nodes

/-- The VLAN most addresses of the nodes are tagged with. -/
def subnetVLAN (go : Runtime) (raw : RawSnapshot) (vlanByIP : KeyedMap String UInt16)
    (ids : List String) : UInt16 :=
  let idIPs : KeyedMap String (List String) :=
    raw.nodes.foldl (fun m n => m.insert n.ip n.ips) ∅
  let vlans := ids.flatMap fun id =>
    ((idIPs.lookup id).getD []).filterMap fun ip =>
      let v := (vlanByIP.lookup ip).getD 0
      if v ≠ 0 then some v else none
  let counts : KeyedMap UInt16 Nat :=
    vlans.foldl (fun m v => m.insert v ((m.lookup v).getD 0 + 1)) ∅
  ((go.rangeOf counts).foldl (fun (best : Nat × UInt16) c =>
    if best.1 < c.2 then (c.2, c.1) else best) (0, 0)).2

/-- Place the hosts of one /24 around its centre, and draw its ring. -/
def placeSubnet (go : Runtime) (raw : RawSnapshot) (vlanByIP : KeyedMap String UInt16) (count : Nat)
    (s : KeyedMap String (Vec F) × List (SubnetIsland F)) (g : (String × List String) × Nat) :
    KeyedMap String (Vec F) × List (SubnetIsland F) :=
  let ((key, ids), i) := g
  let clusterRadius := FloatMath.max 300 (ofInt count * 120)
  let ang := 2 * pi * ofInt i / FloatMath.max 1 (ofInt count)
  let cx := clusterRadius * cos ang
  let cy := clusterRadius * sin ang
  let subRadius := FloatMath.max 60 (FloatMath.min 180 (ofInt ids.length * 18))
  let pos := ids.zipIdx.foldl (fun pos (id, j) =>
    let r := if ids.length = 1 then 0 else subRadius
    let na := 2 * pi * ofInt j / FloatMath.max 1 (ofInt ids.length)
    pos.insert id ⟨cx + r * cos na, cy + r * sin na⟩) s.1
  let baseR := if ids.length = 1 then 60 else subRadius
  (pos, s.2 ++
    [{ cidr := if key = "unknown" then "unknown" else key ++ ".0/24"
       vlanID := subnetVLAN go raw vlanByIP ids
       x := cx
       y := cy
       radius := baseR + 70 }])

def subnetPositions (go : Runtime) (raw : RawSnapshot) (vlanByIP : KeyedMap String UInt16) :
    KeyedMap String (Vec F) × List (SubnetIsland F) :=
  let groups := subnetGroups raw
  let order := groups.keys.insertionSort (· ≤ ·)
  let sorted := order.map fun key => (key, ((groups.lookup key).getD []).insertionSort (· ≤ ·))
  sorted.zipIdx.foldl (placeSubnet go raw vlanByIP order.length) (∅, [])

def layoutSubnet (go : Runtime) (le : LayoutEngine F) (raw : RawSnapshot)
    (vlanByIP : KeyedMap String UInt16) : LayoutEngine F :=
  let mode := "subnet"
  if le.upToDate mode raw then le.markSettled mode
  else
    let r := subnetPositions go raw vlanByIP
    let le := (le.setSig mode raw).laidOut mode r.1
    { le with islands := le.islands.insert mode r.2 }

/-! ## The solar layout -/

def solarSystemBaseR : F := 320
def solarSystemStepR : F := 260
def solarPlanetBaseR : F := 55
def solarPlanetStepR : F := 42
def solarGroupBeltR : F := 100
def solarMaxSystemsRing : Nat := 10
def solarOrbitShells : UInt64 := 8

/-- The star system a host belongs to: its /24, or a coarse bucket. -/
def solarSystemKey (n : Node) : String :=
  let s := primarySubnet24 n
  if s ≠ "" then s ++ ".0/24"
  else if '/' ∈ n.ip.toList then baseCIDR n.ip
  else if n.role ≠ "" ∧ n.role ≠ "unknown" then "role:" ++ n.role
  else "other"

def solarAngle (id : String) : F :=
  let h := fnvString fnvOffset id
  ofInt (h % 1000000).toNat / 1000000 * 2 * pi

/-- A stable orbital shell from the id. -/
def solarShell (id : String) : Nat := (fnvString fnvOffset id % solarOrbitShells).toNat

def frac (a : F) : F :=
  let x := a / pi
  x - floor x

def minInt (a b : Int) : Int := if a < b then a else if b < 1 then 1 else b

/-- Protocol groups sit on the inner belt, not in a star system. -/
def onBelt [RuneCase] (n : Node) : Bool :=
  n.isGroup || decide ("(group)".toList <:+: (toLower n.hostname).toList)

/-- The other nodes by star system. -/
def solarSystems [RuneCase] (raw : RawSnapshot) : KeyedMap String (List Node) :=
  Grouping.groups solarSystemKey id (raw.nodes.filter fun n => !onBelt n)

/-- Put one star system on its galactic ring. -/
def placeSystem (count : Nat) (pos : KeyedMap String (Vec F)) (s : (String × List Node) × Nat) :
    KeyedMap String (Vec F) :=
  let ((key, members), i) := s
  let ring := i / solarMaxSystemsRing
  let slot := i % solarMaxSystemsRing
  let nOnRing := minInt solarMaxSystemsRing ((count : Int) - ring * solarMaxSystemsRing)
  let step := 2 * pi / ofInt nOnRing
  let sysAngle := solarAngle key * decimal 12 2 + ofInt slot * step + ofInt ring * decimal 35 2
  let sysR := solarSystemBaseR + ofInt ring * solarSystemStepR + ofInt (slot % 3 : Nat) * 22
  let star : Vec F := ⟨cos sysAngle * sysR, sin sysAngle * sysR⟩
  match members with
  -- a lone host is its own star
  | [n] => pos.insert n.ip star
  | _ =>
      members.foldl (fun pos n =>
        let a := solarAngle n.ip
        let orbit := solarPlanetBaseR + ofInt (solarShell n.ip) * solarPlanetStepR
        let orbit := orbit * (decimal 94 2 + decimal 12 2 * frac a)
        pos.insert n.ip ⟨star.x + cos a * orbit, star.y + sin a * orbit⟩) pos

/-- Overwrite the stored positions of pinned nodes. -/
def honourPins (pos pins : KeyedMap String (Vec F)) : KeyedMap String (Vec F) :=
  pins.entries.foldl (fun pos p =>
    if (pos.lookup p.1).isSome then pos.insert p.1 p.2 else pos) pos

def solarPositions [RuneCase] (go : Runtime) (raw : RawSnapshot) : KeyedMap String (Vec F) :=
  let sysList := go.sortSlice (fun a b => a.1 < b.1)
    ((go.rangeOf (solarSystems raw)).map fun s => (s.1, go.sortSlice (fun a b => a.ip < b.ip) s.2))
  let pos := (raw.nodes.filter onBelt).zipIdx.foldl (fun pos (g, i) =>
    let a := solarAngle g.ip + ofInt i * decimal 17 2
    let r := solarGroupBeltR * (decimal 7 1 + decimal 3 1 * frac (solarAngle g.ip))
    pos.insert g.ip ⟨cos a * r, sin a * r⟩) ∅
  sysList.zipIdx.foldl (placeSystem sysList.length) pos

def layoutSolar [RuneCase] (go : Runtime) (le : LayoutEngine F) (raw : RawSnapshot)
    (pins : KeyedMap String (Vec F)) : LayoutEngine F :=
  let mode := "solar"
  if le.upToDate mode raw then
    le.laidOut mode (honourPins ((le.positions.lookup mode).getD ∅) pins)
  else
    let le := (le.setSig mode raw).laidOut mode (honourPins (solarPositions go raw) pins)
    { le with temp := le.temp.insert mode 0 }

/-! ## The force layout: where new nodes appear -/

def neighborsOf (raw : RawSnapshot) : KeyedMap String (List String) :=
  raw.edges.foldl (fun m e =>
    let m := m.insert e.fromID ((m.lookup e.fromID).getD [] ++ [e.toID])
    m.insert e.toID ((m.lookup e.toID).getD [] ++ [e.fromID])) ∅

/--
The departed supernode that likely owned a node: its own tail or base, the /24 and
then the /16 of an address, or the /16 of a /24.
-/
def seedFromDepartedSuper (id : String) (departed : KeyedMap String (Vec F)) : Option (Vec F) :=
  let own := [id, id ++ "+"] ++ if hasSuffix id "+" then [trimSuffix id "+"] else []
  let ofHost :=
    match (parseIP id).bind to4 with
    | none => []
    | some v4 =>
        let c24 := (v4.getD 0 0).repr ++ "." ++ (v4.getD 1 0).repr ++ "." ++ (v4.getD 2 0).repr
          ++ ".0/24"
        let c16 := (v4.getD 0 0).repr ++ "." ++ (v4.getD 1 0).repr ++ ".0.0/16"
        [c24, c24 ++ "+", c16, c16 ++ "+"]
  let ofSubnet :=
    if hasSuffix id "/24" then
      let base := trimSuffix id ".0/24"
      if base = id then []
      else
        match beforeLastDot base with
        | none => []
        | some before => [before ++ ".0.0/16", before ++ ".0.0/16" ++ "+"]
    else []
  (own ++ ofHost ++ ofSubnet).findSome? fun key => departed.lookup key

/-- Positions while new nodes are placed. -/
structure Seeding (F : Type) where
  pos : KeyedMap String (Vec F)
  rng : Nat → F
  seeded : KeyedMap String Bool

/-- Where a new node appears: by a placed neighbour, by its departed supernode, or anywhere. -/
def seedPosition (n : Nat) (neighbors : KeyedMap String (List String))
    (departed pos : KeyedMap String (Vec F)) (rng : Nat → F) (id : String) : Vec F × (Nat → F) :=
  let (u, rng) := draw rng
  let a := u * 2 * pi
  match ((neighbors.lookup id).getD []).findSome? fun nb => pos.lookup nb with
  | some p => (⟨p.x + cos a * forceIdealLen * half, p.y + sin a * forceIdealLen * half⟩, rng)
  | none =>
      let (v, rng) := draw rng
      match seedFromDepartedSuper id departed with
      | some p =>
          let r := 20 + v * forceIdealLen * decimal 6 1
          (⟨p.x + cos a * r, p.y + sin a * r⟩, rng)
      | none =>
          let r := v * forceIdealLen * sqrt (ofInt n)
          (⟨cos a * r, sin a * r⟩, rng)

def seedNode (n : Nat) (neighbors : KeyedMap String (List String))
    (departed : KeyedMap String (Vec F)) (burst : Bool) (s : Seeding F) (id : String) : Seeding F :=
  match s.pos.lookup id with
  | some _ => s
  | none =>
      let r := seedPosition n neighbors departed s.pos s.rng id
      { pos := s.pos.insert id r.1
        rng := r.2
        seeded := if burst then s.seeded.insert id true else s.seeded }

/-- The temperature a step starts with. -/
def reheat (temp : F) (wasEmpty burst changed bloom : Bool) : F :=
  if wasEmpty then forceInitialTemp
  else if burst then
    let burstCap := forceReheatTemp * burstTempFactor
    if FloatMath.lt burstCap temp || (changed && FloatMath.lt temp burstCap) || FloatMath.le temp 0
    then burstCap else temp
  else if changed && bloom then
    let cool := forceReheatTemp * decimal 55 2
    if FloatMath.lt temp cool then cool else temp
  else if changed && FloatMath.lt temp forceReheatTemp then forceReheatTemp
  else if FloatMath.le temp 0 then forceReheatTemp
  else temp

/-! ## The force layout: relaxation -/

/-- What one step relaxes, by node index. -/
structure Bodies (F : Type) where
  radArr : Option (List F)
  anchorArr : List (Vec F)
  pinnedArr : List Bool
  frozenArr : List Bool
  edgeIdxs : List (Nat × Nat)

structure Relaxation (F : Type) where
  posArr : List (Vec F)
  rng : Nat → F
  temp : F
  maxDisp : F

def vecAt (l : List (Vec F)) (i : Nat) : Vec F := l.getD i Vec.zero

/-- Push two nodes apart. -/
def repel (b : Bodies F) (posArr : List (Vec F)) (s : List (Vec F) × (Nat → F)) (ij : Nat × Nat) :
    List (Vec F) × (Nat → F) :=
  let (i, j) := ij
  if b.frozenArr.getD i false && b.frozenArr.getD j false then s
  else
    let d := (vecAt posArr i).minus (vecAt posArr j)
    let dist := hypot d.x d.y
    let (d, dist, rng) :=
      if FloatMath.lt dist (decimal 1 2) then
        let (u, rng) := draw s.2
        let (v, rng) := draw rng
        let d : Vec F := ⟨u - half, v - half⟩
        (d, hypot d.x d.y + decimal 1 2, rng)
      else (d, dist, s.2)
    let f := forceIdealLen * forceIdealLen / dist
    let u : Vec F := ⟨d.x / dist, d.y / dist⟩
    let f :=
      match b.radArr with
      | none => f
      | some rad =>
          let minSep := rad.getD i 0 + rad.getD j 0 + collisionPad
          if FloatMath.lt dist minSep then f + (minSep - dist) * collisionStrength else f
    let push : Vec F := ⟨u.x * f, u.y * f⟩
    ((s.1.modify i fun d => d.plus push).modify j fun d => d.minus push, rng)

/-- Pull the endpoints of an edge together. -/
def attract (posArr disp : List (Vec F)) (e : Nat × Nat) : List (Vec F) :=
  let d := (vecAt posArr e.1).minus (vecAt posArr e.2)
  let dist := hypot d.x d.y
  let dist := if FloatMath.lt dist (decimal 1 2) then decimal 1 2 else dist
  let f := dist * dist / forceIdealLen
  let pull : Vec F := ⟨d.x / dist * f, d.y / dist * f⟩
  (disp.modify e.1 fun d => d.minus pull).modify e.2 fun d => d.plus pull

/-- Pull a node toward its anchor. -/
def gravitate (b : Bodies F) (posArr : List (Vec F)) (d : Vec F) (i : Nat) : Vec F :=
  let toAnchor := (vecAt posArr i).minus (vecAt b.anchorArr i)
  d.minus ⟨forceGravity * toAnchor.x, forceGravity * toAnchor.y⟩

/-- Move one node along its displacement, capped by the temperature. -/
def integrate (b : Bodies F) (disp : List (Vec F)) (temp : F) (s : List (Vec F) × F) (i : Nat) :
    List (Vec F) × F :=
  if b.pinnedArr.getD i false || b.frozenArr.getD i false then s
  else
    let d := vecAt disp i
    let dl := hypot d.x d.y
    if FloatMath.lt dl (decimal 1 9) then s
    else
      let step := FloatMath.min dl temp
      (s.1.modify i fun p => p.plus ⟨d.x / dl * step, d.y / dl * step⟩,
        if FloatMath.lt s.2 step then step else s.2)

/-- The index pairs `i < j`. -/
def pairs (n : Nat) : List (Nat × Nat) :=
  (List.range n).flatMap fun i => (List.range (n - (i + 1))).map fun j => (i, i + 1 + j)

/-- One relaxation iteration. -/
def relax (b : Bodies F) (s : Relaxation F) : Relaxation F :=
  let n := s.posArr.length
  let r := (pairs n).foldl (repel b s.posArr) (List.replicate n Vec.zero, s.rng)
  let disp := b.edgeIdxs.foldl (attract s.posArr) r.1
  let disp := disp.zipIdx.map fun (d, i) => gravitate b s.posArr d i
  let m := (List.range n).foldl (integrate b disp s.temp) (s.posArr, s.maxDisp)
  { posArr := m.1, rng := r.2, temp := s.temp * decimal 9 1, maxDisp := m.2 }

/-- The indices of an edge's endpoints, when both are placed. -/
def edgeIdx (idx : KeyedMap String Nat) (e : Edge) : Option (Nat × Nat) :=
  match idx.lookup e.fromID, idx.lookup e.toID with
  | some f, some t => some (f, t)
  | _, _ => none

def bodies (raw : RawSnapshot) (ids : List String) (pins : KeyedMap String (Vec F))
    (radii : Option (KeyedMap String F)) (anchors : Option (KeyedMap String (Vec F)))
    (burst : Bool) (seeded : KeyedMap String Bool) : Bodies F where
  radArr := radii.map fun radii => ids.map fun id => (radii.lookup id).getD 0
  anchorArr := ids.map fun id => (anchors.bind fun a => a.lookup id).getD Vec.zero
  pinnedArr := ids.map fun id => (pins.lookup id).isSome
  frozenArr := ids.map fun id => burst && !(seeded.lookup id).getD false
  edgeIdxs :=
    let idx : KeyedMap String Nat := ids.zipIdx.foldl (fun m (id, i) => m.insert id i) ∅
    raw.edges.filterMap (edgeIdx idx)

/-! ## The force layout: one step -/

/-- Put the pins among the placed nodes. -/
def applyPins (ids : List String) (pos pins : KeyedMap String (Vec F)) : KeyedMap String (Vec F) :=
  pins.entries.foldl (fun pos p => if p.1 ∈ ids then pos.insert p.1 p.2 else pos) pos

/-- Write the relaxed positions back. -/
def writeBack (pos : KeyedMap String (Vec F)) (ids : List String) (posArr : List (Vec F)) :
    KeyedMap String (Vec F) :=
  (ids.zip posArr).foldl (fun pos (id, p) => pos.insert id p) pos

/--
One incremental relaxation step of a mode. In a burst the nodes placed before it
stay where they are.
-/
def stepForce (le : LayoutEngine F) (raw : RawSnapshot) (pins : KeyedMap String (Vec F))
    (radii : Option (KeyedMap String F)) (anchors : Option (KeyedMap String (Vec F)))
    (mode : String) (burst : Bool) : LayoutEngine F :=
  let pos := (le.positions.lookup mode).getD ∅
  let ids := raw.nodes.map Node.ip
  let n := ids.length
  if n = 0 then le.laidOut mode pos
  else
    let wasEmpty := pos.entries.isEmpty
    let changed := (le.sig.lookup mode).getD 0 != nodeSetSig raw.nodes
    let departed := pos.filterKey fun id => id ∉ ids ∧ '/' ∈ id.toList
    let s := ids.foldl (seedNode n (neighborsOf raw) departed burst)
      { pos := pos, rng := le.rng, seeded := (le.burstNew.lookup mode).getD ∅ }
    let pos := applyPins ids (s.pos.filterKey fun id => id ∈ ids) pins
    let temp := reheat ((le.temp.lookup mode).getD 0) wasEmpty burst changed
      (!departed.entries.isEmpty)
    let b := bodies raw ids pins radii anchors burst s.seeded
    let r := (relax b)^[forceIterationsPerStep]
      { posArr := ids.map fun id => (pos.lookup id).getD Vec.zero
        rng := s.rng
        temp := temp
        maxDisp := 0 }
    { le with
      positions := le.positions.insert mode (writeBack pos ids r.posArr)
      sig := le.sig.insert mode (nodeSetSig raw.nodes)
      temp := le.temp.insert mode r.temp
      settled := le.settled.insert mode (FloatMath.lt r.maxDisp forceEpsilon)
      burstNew := if burst then le.burstNew.insert mode s.seeded else le.burstNew
      rng := r.rng
      moved := le.moved.insert mode r.maxDisp }

/-! ## The gravity layout -/

/-- The busier node first, then the smaller id. -/
def busierFirst (a b : Node) : Bool :=
  if a.packetCount ≠ b.packetCount then b.packetCount < a.packetCount else a.ip < b.ip

/-- Where the `i`-th of `k` hubs is pinned. -/
def hubCentre (k i : Nat) : Vec F :=
  if 1 < k then
    let clusterRadius := FloatMath.max 450 (ofInt k * 340)
    let ang := 2 * pi * ofInt i / ofInt k
    ⟨clusterRadius * cos ang, clusterRadius * sin ang⟩
  else Vec.zero

/-- The traffic of each node with each hub. -/
def hubWeights (isHub : String → Bool) (raw : RawSnapshot) : KeyedMap String (KeyedMap String Nat) :=
  let addW (w : KeyedMap String (KeyedMap String Nat)) (node hub : String) (p : Nat) :=
    let m := (w.lookup node).getD ∅
    w.insert node (m.insert hub ((m.lookup hub).getD 0 + p))
  raw.edges.foldl (fun w e =>
    if isHub e.fromID && !isHub e.toID then addW w e.toID e.fromID e.packetCount
    else if isHub e.toID && !isHub e.fromID then addW w e.fromID e.toID e.packetCount
    else w) ∅

/-- Each node's island centre, and the hubs pinned to theirs. -/
def computeIslands (go : Runtime) (raw : RawSnapshot) :
    KeyedMap String (Vec F) × KeyedMap String (Vec F) :=
  let n := raw.nodes.length
  if n = 0 then (∅, ∅)
  else
    let arr := go.sortSlice busierFirst raw.nodes
    let k := Float64.round (sqrt (ofInt n) / 2 : F)
    let k := if k < 1 then 1 else k
    let k := if 8 < k then 8 else k
    let k := (if (n : Int) < k then (n : Int) else k).toNat
    let hubCenter : KeyedMap String (Vec F) :=
      (arr.take k).zipIdx.foldl (fun m (h, i) => m.insert h.ip (hubCentre k i)) ∅
    let isHub : String → Bool := fun id => (hubCenter.lookup id).isSome
    let weight := hubWeights isHub raw
    let r := arr.foldl (fun (s : KeyedMap String (Vec F) × Nat) (it : Node) =>
      if isHub it.ip then s
      else
        let best := (go.rangeOf ((weight.lookup it.ip).getD ∅)).foldl
          (fun (best : String × Int) w => if best.2 < w.2 then (w.1, (w.2 : Int)) else best) ("", -1)
        -- a node that talks to no hub goes to the next one in turn
        let (hub, rr) :=
          if best.1 = "" then (((arr[s.2 % k]?).map Node.ip).getD "", s.2 + 1) else (best.1, s.2)
        (s.1.insert it.ip ((hubCenter.lookup hub).getD Vec.zero), rr)) (hubCenter, 0)
    (r.1, hubCenter)

def stepGravityIslands (go : Runtime) (le : LayoutEngine F) (raw : RawSnapshot)
    (pins : KeyedMap String (Vec F)) (radii : Option (KeyedMap String F)) : LayoutEngine F :=
  let sig := nodeSetSig raw.nodes
  let le :=
    if le.gravitySig ≠ sig then
      let r := computeIslands go raw
      { le with gravitySig := sig, gravityAnchors := some r.1, gravityHubPins := r.2 }
    else le
  -- the pins of the user win over those of the hubs
  let merged := pins.entries.foldl (fun m p => m.insert p.1 p.2) le.gravityHubPins
  le.stepForce raw merged radii le.gravityAnchors "gravity" false

/-! ## The gate and the burst -/

/-- Two pin maps are equal. -/
def pinsEqual (a b : KeyedMap String (Vec F)) : Bool :=
  a.entries.length == b.entries.length
    && a.entries.all fun p => (b.lookup p.1).any fun q => Vec.eq q p.2

/-- The mode has converged and nothing it depends on has changed. -/
def forceCanSkip (le : LayoutEngine F) (mode : String) (raw : RawSnapshot)
    (pins : KeyedMap String (Vec F)) : Bool :=
  le.isSettled mode && (le.positions.lookup mode).isSome
    && (le.sig.lookup mode).getD 0 == nodeSetSig raw.nodes
    && pinsEqual ((le.pins.lookup mode).getD ∅) pins

/-- Record the size of the node set, and for how many steps the set has not changed. -/
def recordSize (le : LayoutEngine F) (mode : String) (raw : RawSnapshot) : LayoutEngine F :=
  let hist := (le.sizeHist.lookup mode).getD [] ++ [raw.nodes.length]
  let unchanged :=
    (le.positions.lookup mode).isSome && nodeSetSig raw.nodes == (le.sig.lookup mode).getD 0
  { le with
    sizeHist := le.sizeHist.insert mode (hist.drop (hist.length - burstWindowSteps))
    stableSteps := le.stableSteps.insert mode
      (if unchanged then (le.stableSteps.lookup mode).getD 0 + 1 else 0) }

variable (F) in
/-- The set has grown within the window by so much that it counts as a scan. -/
def burstGrowth (hist : List Nat) (n : Nat) : Bool :=
  let windowMin := hist.foldl Min.min n
  let growth := (n : Int) - windowMin
  burstGrowthAbs < growth
    || (burstGrowthPctFloor ≤ growth
      && FloatMath.lt (burstGrowthPct * ofInt windowMin) (ofInt growth : F))

/-- Whether the mode is in a burst, and whether this step ends one. -/
def trackBurst (le : LayoutEngine F) (mode : String) (raw : RawSnapshot) :
    LayoutEngine F × Bool × Bool :=
  let le := le.recordSize mode raw
  if (le.burst.lookup mode).getD false then
    if burstStableSteps ≤ (le.stableSteps.lookup mode).getD 0 then
      ({ le with burst := le.burst.insert mode false, burstNew := le.burstNew.erase mode },
        false, true)
    else (le, true, false)
  else if burstGrowth F ((le.sizeHist.lookup mode).getD []) raw.nodes.length then
    ({ le with
      burst := le.burst.insert mode true
      stableSteps := le.stableSteps.insert mode 0
      burstNew := le.burstNew.insert mode ∅ }, true, false)
  else (le, false, false)

/-! ## Stepping every active mode -/

/-- `"force"` and anything unknown. -/
def stepDefault (le : LayoutEngine F) (raw : RawSnapshot) (mode : String)
    (pins : KeyedMap String (Vec F)) (radii : Option (KeyedMap String F)) : LayoutEngine F :=
  -- the state is kept under "force"
  let (le, inBurst, exitReheat) := le.trackBurst "force" raw
  let le :=
    if exitReheat then
      let cool := forceReheatTemp * decimal 55 2
      { le with
        temp :=
          if FloatMath.lt ((le.temp.lookup "force").getD 0) cool then le.temp.insert "force" cool
          else le.temp
        settled := le.settled.insert "force" false }
    else le
  if le.forceCanSkip mode raw pins then le
  else { le with pins := le.pins.insert mode pins }.stepForce raw pins radii none "force" inBurst

/-- What a step is given besides the snapshot. -/
structure StepArgs (F : Type) where
  pins : KeyedMap String (Vec F) := ∅
  vlanByIP : KeyedMap String UInt16 := ∅
  radii : Option (KeyedMap String F) := none

def stepMode [RuneCase] (go : Runtime) (raw : RawSnapshot) (args : StepArgs F)
    (le : LayoutEngine F) (mode : String) : LayoutEngine F :=
  if (le.frozen.lookup mode).getD false then le
  else
    match mode with
    | "circular" => le.layoutCircular raw
    | "gravity" =>
        if le.forceCanSkip "gravity" raw args.pins then le
        else
          { le with pins := le.pins.insert "gravity" args.pins }.stepGravityIslands go raw args.pins
            args.radii
    | "hierarchical" => le.layoutHierarchical go raw
    | "subnet" => le.layoutSubnet go raw args.vlanByIP
    | "solar" => le.layoutSolar go raw args.pins
    | mode => le.stepDefault raw mode args.pins args.radii

/-- Advance every active mode over the snapshot. -/
def step [RuneCase] (go : Runtime) (raw : RawSnapshot) (modes : List String)
    (le : LayoutEngine F) (args : StepArgs F) : LayoutEngine F :=
  modes.foldl (stepMode go raw args) le

end LayoutEngine

end Layout

end Etherchimp
