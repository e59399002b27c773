import Etherchimp.Graph.Layout
import Etherchimp.Lib.Chains
import Etherchimp.Server.Client

/-!
# Building a view

`BuildView` turns a raw snapshot into what one client is shown: filter by protocol,
fold crowded subnets into supernodes, cut to the busiest nodes and edges, step the
layout over what is left, style it. Each stage is a function of the one before.

The caller's layout engine also stands for the client: with it comes what the last
build remembered of the view. Without an engine a build remembers nothing.
-/

namespace Etherchimp

/-! ## Limits -/

/-- The value of an `int` expression: 64 bits, and what does not fit wraps around. -/
def goInt (n : Int) : Int := n.bmod (2 ^ 64)

theorem goInt_eq {n : Int} (hl : -2 ^ 63 ≤ n) (hu : n < 2 ^ 63) : goInt n = n := by
  unfold goInt
  rw [Int.bmod_eq_of_le (by omega) (by omega)]

def defaultMaxNodes : Int := 500
def defaultMaxEdges : Int := 1000
def defaultAggregateThreshold : Int := 300
def minHostsToCollapse : Nat := 3
def aggregateReexpandDivisor : Int := 6
def defaultExpandBudget : Int := 120
def defaultIsolateMaxNodes : Int := 800
def defaultIsolateMaxEdges : Int := 1600

/-- A node's user customization. -/
structure NodeOverride (F : Type) where
  label : String := ""
  color : String := ""
  icon : String := ""
  isGroup : Bool := false
  pinnedX : Option F := none
  pinnedY : Option F := none

/-- The overrides by node id; a caller without a store has none. -/
abbrev OverrideStore (F : Type) := KeyedMap String (NodeOverride F)

/-- What one build leaves for the next of the same client. -/
structure ViewState where
  aggregated : Bool := false
  prevKept : Option (KeyedMap String Bool) := none

namespace ViewConfig

variable (cfg : ViewConfig)

def nodeCap : Nat :=
  let n := if cfg.maxNodes ≤ 0 then defaultMaxNodes else cfg.maxNodes
  let n := if cfg.layoutMode = "solar" ∧ n < 1000 then 1000 else n
  let n := if cfg.focusCIDR ≠ "" ∧ n < defaultIsolateMaxNodes then defaultIsolateMaxNodes else n
  n.toNat

def edgeCap : Nat :=
  let n := if cfg.maxEdges ≤ 0 then defaultMaxEdges else cfg.maxEdges
  let n := if cfg.layoutMode = "solar" ∧ n < 2500 then 2500 else n
  let n := if cfg.focusCIDR ≠ "" ∧ n < defaultIsolateMaxEdges then defaultIsolateMaxEdges else n
  n.toNat

/-- How many members of an opened subnet are shown one by one. -/
def budget : Nat :=
  let n := if cfg.expandBudget ≤ 0 then defaultExpandBudget else cfg.expandBudget
  let n := if cfg.zoomBand = "far" ∧ 40 < n then 40 else n
  let n := if cfg.zoomBand = "near" ∧ n < 200 then 200 else n
  n.toNat

/-- Above how many nodes the view is aggregated. -/
def threshold : Int :=
  let n := if cfg.aggregateThreshold ≤ 0 then defaultAggregateThreshold else cfg.aggregateThreshold
  let n :=
    if cfg.layoutMode = "solar"
        ∧ (cfg.aggregateThreshold ≤ 0 ∨ cfg.aggregateThreshold = defaultAggregateThreshold) then
      goInt (cfg.nodeCap + 1)
    else n
  let n := if cfg.zoomBand = "far" ∧ cfg.layoutMode ≠ "solar" ∧ 80 < n then 80 else n
  if cfg.zoomBand = "near" ∧ n < 600 then 600 else n

def isFullExpand (cidr : String) : Bool := (cfg.fullExpand.lookup cidr).getD false

/-- The user has opened the subnet, in part or in full. -/
def isExpanded (cidr : String) : Bool :=
  (cfg.expandedSubnets.lookup cidr).getD false || cfg.isFullExpand cidr

/-! ## The protocol filter -/

def filtering : Bool := !cfg.hidden.entries.isEmpty

def hides (e : Edge) : Bool := cfg.filtering && (cfg.hidden.lookup e.protocol.name).getD false

end ViewConfig

/-- Visible packets by node, and the nodes some visible edge touches. -/
structure VisibleTraffic where
  visible : KeyedMap String Nat := ∅
  survivors : KeyedMap String Bool := ∅

def VisibleTraffic.add (t : VisibleTraffic) (e : Edge) : VisibleTraffic :=
  let v := t.visible.insert e.fromID ((t.visible.lookup e.fromID).getD 0 + e.packetCount)
  { visible := v.insert e.toID ((v.lookup e.toID).getD 0 + e.packetCount)
    survivors := (t.survivors.insert e.fromID true).insert e.toID true }

def visibleTraffic (cfg : ViewConfig) (raw : RawSnapshot) : VisibleTraffic :=
  (raw.edges.filter fun e => !cfg.hides e).foldl VisibleTraffic.add {}

/-- The count that sizes, colours and selects a node. -/
def effective (cfg : ViewConfig) (visible : KeyedMap String Nat) (n : Node) : Nat :=
  if cfg.filtering then (visible.lookup n.ip).getD 0 else n.packetCount

/-- The nodes that survive the protocol filter. -/
def survivors (cfg : ViewConfig) (raw : RawSnapshot) : List Node :=
  let t := visibleTraffic cfg raw
  raw.nodes.filter fun n => !(cfg.filtering && !(t.survivors.lookup n.ip).getD false)

/-! ## Folding subnets into supernodes -/

/-- The nodes of the view so far, and what has been folded into them. -/
structure Folding where
  kept : List Node
  visible : KeyedMap String Nat
  /-- A folded host's or supernode's supernode. -/
  hostToSuper : KeyedMap String String := ∅
  /-- How many hosts each supernode stands for. -/
  superHosts : KeyedMap String Nat := ∅
  tailSupers : KeyedMap String Bool := ∅

namespace Folding

def isSuper (s : Folding) (id : String) : Bool := 0 < (s.superHosts.lookup id).getD 0

def memberHostCount (s : Folding) (n : Node) : Nat :=
  let mh := (s.superHosts.lookup n.ip).getD 0
  if 0 < mh then mh else 1

end Folding

/-- A kept node with its place in the list. -/
abbrev Member := Node × Nat

/-- One group to fold: the supernode it becomes, and its members. -/
structure Fold where
  superID : String
  cidr : String
  isTail : Bool
  members : List Member

def Fold.superNode (f : Fold) : Node where
  ip := f.superID
  hostname := f.cidr
  ips := [networkAddrOfCIDR f.cidr]
  packetCount := (f.members.map fun m => m.1.packetCount).sum
  byteCount := (f.members.map fun m => m.1.byteCount).sum
  lastSeen := 0
  isGroup := false

/-- One level of folding in progress. -/
structure Level where
  folding : Folding
  /-- The places of the folded members. -/
  collapsed : List Nat := []
  supers : List Node := []

def Level.fold (l : Level) (f : Fold) : Level :=
  let s := l.folding
  { folding := { s with
      visible := f.members.foldl (fun v m =>
        v.insert f.superID ((v.lookup f.superID).getD 0 + (v.lookup m.1.ip).getD 0)) s.visible
      hostToSuper := f.members.foldl (fun h m => h.insert m.1.ip f.superID) s.hostToSuper
      superHosts := s.superHosts.insert f.superID (f.members.map fun m => s.memberHostCount m.1).sum
      tailSupers := if f.isTail then s.tailSupers.insert f.superID true else s.tailSupers }
    collapsed := l.collapsed ++ f.members.map Prod.snd
    supers := l.supers ++ [f.superNode] }

/-- What is to be folded of a group: nothing, a quiet tail, or all of it. -/
def planGroup (go : Runtime) (cfg : ViewConfig) (visible : KeyedMap String Nat)
    (g : Sigma fun _ : String => List Member) : Option Fold :=
  let ⟨cidr, idxs⟩ := g
  if cfg.isFullExpand cidr then none
  else if cfg.isExpanded cidr then
    if idxs.length ≤ cfg.budget then none
    else
      let idxs := go.sortSlice
        (fun a b => effective cfg visible b.1 < effective cfg visible a.1) idxs
      some
        { superID := residualSuperID cidr
          cidr := cidr
          isTail := true
          members := idxs.drop cfg.budget }
  else if idxs.length < minHostsToCollapse then none
  else some { superID := cidr, cidr := cidr, isTail := false, members := idxs }

def Level.foldGroup (go : Runtime) (cfg : ViewConfig) (l : Level)
    (g : Sigma fun _ : String => List Member) : Level :=
  match planGroup go cfg l.folding.visible g with
  | none => l
  | some f => l.fold f

/-- The members of each subnet; protocol groups stay as they are. -/
def subnetMembers (isGroup : Node → Bool) (cidrOf : Node → String) (kept : List Node) :
    List (String × Member) :=
  kept.zipIdx.filterMap fun m =>
    if isGroup m.1 then none
    else
      let cidr := cidrOf m.1
      if cidr = "" then none else some (cidr, m)

/-- Fold the kept nodes into supernodes by the subnet `cidrOf` gives them. -/
def collapseLevel (go : Runtime) (cfg : ViewConfig) (isGroup : Node → Bool) (cidrOf : Node → String)
    (s : Folding) : Folding :=
  let groups := Grouping.groups Prod.fst Prod.snd (subnetMembers isGroup cidrOf s.kept)
  let l := (go.rangeOf groups).foldl (Level.foldGroup go cfg) { folding := s }
  { l.folding with
    kept := l.supers ++ (s.kept.zipIdx.filter fun m => m.2 ∉ l.collapsed).map Prod.fst }

/-- Level 1: hosts to /24 supernodes. -/
def cidr24Of (s : Folding) (n : Node) : String :=
  if s.isSuper n.ip then ""
  else
    let net := primarySubnet24 n
    if net = "" then "" else net ++ ".0/24"

/-- Level 2: /24 supernodes and loose hosts to /16s, but for what the user has opened. -/
def cidr16Of (cfg : ViewConfig) (s : Folding) (n : Node) : String :=
  let net :=
    if s.isSuper n.ip then
      let base := baseCIDR n.ip
      if cfg.isExpanded base then ""
      else
        let net := trimSuffix base ".0/24"
        if net = base then "" else net
    else
      let net := primarySubnet24 n
      if net = "" then "" else if cfg.isExpanded (net ++ ".0/24") then "" else net
  match beforeLastDot net with
  | none => ""
  | some before => before ++ ".0.0/16"

/-- Make every chain of supernodes one hop. -/
def flatten (go : Runtime) (hostToSuper : KeyedMap String String) : KeyedMap String String :=
  (go.rangeOf hostToSuper).foldl Chains.shorten hostToSuper

/-- Five sixths of the threshold, but for a threshold so large that the product wraps around. -/
def reexpandFloor (threshold : Int) : Int :=
  (goInt (threshold * (aggregateReexpandDivisor - 1))).tdiv aggregateReexpandDivisor

theorem reexpandFloor_eq {threshold : Int} (hl : 0 ≤ threshold) (hu : threshold * 5 < 2 ^ 63) :
    reexpandFloor threshold = threshold * 5 / 6 := by
  have hprod : threshold * (aggregateReexpandDivisor - 1) = threshold * 5 := rfl
  unfold reexpandFloor
  rw [hprod, goInt_eq (by omega) hu, Int.tdiv_eq_ediv_of_nonneg (by omega)]
  rfl

/-- Whether the view is aggregated; once it is, it stays so down to the floor. -/
def aggActive (cfg : ViewConfig) (vs : Option ViewState) (count : Nat) : Bool :=
  cfg.threshold < count || (cfg.zoomBand = "far" ∧ minHostsToCollapse < count)
    || (vs.any ViewState.aggregated && reexpandFloor cfg.threshold < count)

/-- Both levels. -/
def aggregate (go : Runtime) (cfg : ViewConfig) (isGroup : Node → Bool) (s : Folding) : Folding :=
  let s := collapseLevel go cfg isGroup (cidr24Of s) s
  let s :=
    if cfg.threshold < s.kept.length ∨ cfg.zoomBand = "far" then
      collapseLevel go cfg isGroup (cidr16Of cfg s) s
    else s
  { s with hostToSuper := flatten go s.hostToSuper }

/-- The nodes after the filter and the folding. -/
def foldedView (go : Runtime) (raw : RawSnapshot) (cfg : ViewConfig) (isGroup : Node → Bool)
    (vs : Option ViewState) : Folding :=
  let s : Folding :=
    { kept := survivors cfg raw, visible := (visibleTraffic cfg raw).visible }
  if aggActive cfg vs s.kept.length then aggregate go cfg isGroup s else s

namespace Folding

/-- Endpoints are remapped once something is folded. -/
def remapped (s : Folding) : Bool := !s.superHosts.entries.isEmpty

def remapID (s : Folding) (id : String) : String :=
  if s.remapped then (s.hostToSuper.lookup id).getD id else id

end Folding

/-! ## Selecting nodes -/

/-- Isolate mode: keep the focused cluster. -/
def isolate (cfg : ViewConfig) (s : Folding) : List Node :=
  if cfg.focusCIDR ≠ "" then
    s.kept.filter fun n => nodeBelongsToCIDR n (baseCIDR cfg.focusCIDR) s.isSuper
  else s.kept

def idSet (nodes : List Node) : KeyedMap String Bool :=
  nodes.foldl (fun m n => m.insert n.ip true) ∅

/-- Focus members, and members of the subnets the user has opened. -/
def isProtected (cfg : ViewConfig) (s : Folding) (n : Node) : Bool :=
  (cfg.focusCIDR ≠ "" && nodeBelongsToCIDR n (baseCIDR cfg.focusCIDR) s.isSuper)
    || cfg.expandedSubnets.keys.any fun cidr => nodeBelongsToCIDR n (baseCIDR cidr) s.isSuper

/-- The nodes taken, and their ids. -/
abbrev Taken := List Node × KeyedMap String Bool

def takeNode (t : Taken) (n : Node) : Taken := (t.1 ++ [n], t.2.insert n.ip true)

/-- Cut the sorted nodes to the cap: all protected ones first, then the busiest others. -/
def cutNodes (cfg : ViewConfig) (s : Folding) (kept : List Node) : List Node :=
  let cap := cfg.nodeCap
  if kept.length ≤ cap then kept
  else
    let protect := idSet (kept.filter (isProtected cfg s))
    if protect.entries = [] ∨ cap ≤ protect.entries.length then kept.take cap
    else
      let out := kept.foldl (fun (t : Taken) n =>
        if (protect.lookup n.ip).isSome ∧ t.1.length < cap then takeNode t n else t) ([], ∅)
      (kept.foldl (fun (t : Taken) n =>
        if cap ≤ t.1.length then t
        else if (t.2.lookup n.ip).isSome then t
        else takeNode t n) out).1

/-! ## Selecting edges -/

/-- Add a raw edge to the edge between the same two nodes of the view. -/
def mergeEdge (s : Folding) (acc : Option (Edge × Nat)) (e : Edge) : Edge × Nat :=
  let f := s.remapID e.fromID
  let t := s.remapID e.toID
  -- the edge, and the packets behind its pick of a protocol
  let (m, domPk) := acc.getD
    ({ id := (getCanonicalEdgeID f t).1
       fromID := (getCanonicalEdgeID f t).2.1
       toID := (getCanonicalEdgeID f t).2.2
       protocol := e.protocol
       packetCount := 0
       byteCount := 0
       lastSeen := 0 }, 0)
  let m := { m with packetCount := m.packetCount + e.packetCount, byteCount := m.byteCount + e.byteCount }
  -- directional counters are relative to the canonical from
  let m :=
    if f = m.fromID then
      { m with
        forwardPackets := m.forwardPackets + e.forwardPackets
        reversePackets := m.reversePackets + e.reversePackets
        forwardBytes := m.forwardBytes + e.forwardBytes
        reverseBytes := m.reverseBytes + e.reverseBytes }
    else
      { m with
        forwardPackets := m.forwardPackets + e.reversePackets
        reversePackets := m.reversePackets + e.forwardPackets
        forwardBytes := m.forwardBytes + e.reverseBytes
        reverseBytes := m.reverseBytes + e.forwardBytes }
  if domPk < e.packetCount then ({ m with protocol := e.protocol }, e.packetCount) else (m, domPk)

/-- The edge is visible and joins two kept nodes. -/
def joinsKept (cfg : ViewConfig) (s : Folding) (keptIDs : KeyedMap String Bool) (e : Edge) : Bool :=
  !cfg.hides e && (keptIDs.lookup (s.remapID e.fromID)).isSome
    && (keptIDs.lookup (s.remapID e.toID)).isSome

def candEdges (go : Runtime) (cfg : ViewConfig) (s : Folding) (keptIDs : KeyedMap String Bool)
    (raw : RawSnapshot) : List Edge :=
  let visible := raw.edges.filter (joinsKept cfg s keptIDs)
  if s.remapped then
    -- traffic inside a supernode is not shown
    let between := visible.filter fun e => s.remapID e.fromID ≠ s.remapID e.toID
    let merged := Grouping.accumulate
      (fun e => canonKey (s.remapID e.fromID) (s.remapID e.toID)) (mergeEdge s) between
    (go.rangeOf merged).map fun m => m.2.1
  else visible

/-- The busier edge first, then the smaller id. -/
def busierEdge (a b : Edge) : Bool :=
  if a.packetCount ≠ b.packetCount then b.packetCount < a.packetCount else a.id < b.id

def selectEdges (go : Runtime) (cfg : ViewConfig) (cand : List Edge) : List Edge :=
  (go.sortSlice busierEdge cand).take cfg.edgeCap

section Styling

variable {F : Type} [FloatMath F]

local instance viewAdd : Add F := ⟨Float64.add⟩
local instance viewSub : Sub F := ⟨FloatMath.sub⟩
local instance viewMul : Mul F := ⟨Float64.mul⟩
local instance viewDiv : Div F := ⟨FloatMath.div⟩
local instance viewOfNat (n : Nat) : OfNat F n := ⟨Float64.ofInt n⟩

open FloatMath Float64

/-- A node counts as a group when the server flagged it or an override says so. -/
def isGroupNode (ov : OverrideStore F) (n : Node) : Bool :=
  n.isGroup || (ov.lookup n.ip).any NodeOverride.isGroup

/-! ## The order of the nodes -/

variable (F) in
/-- The traffic a node is selected by; one shown last tick has a bonus. -/
def sortKey (cfg : ViewConfig) (vs : Option ViewState) (s : Folding) (n : Node) : Int :=
  let k := effective cfg s.visible n
  let incumbent := ((vs.bind ViewState.prevKept).bind fun prev => prev.lookup n.ip).getD false
  if incumbent then trunc (ofInt k * decimal 11 1 : F) else k

variable (F) in
/-- The busier node first, then the smaller id. -/
def busierNode (cfg : ViewConfig) (vs : Option ViewState) (s : Folding) (a b : Node) : Bool :=
  let ka := sortKey F cfg vs s a
  let kb := sortKey F cfg vs s b
  if ka ≠ kb then kb < ka else a.ip < b.ip

variable (F) in
/-- The nodes of the view. -/
def selectNodes (go : Runtime) (cfg : ViewConfig) (vs : Option ViewState) (s : Folding) :
    List Node :=
  cutNodes cfg s (go.sortSlice (busierNode F cfg vs s) (isolate cfg s))

/-! ## Styling -/

/-- The size driver of a node. -/
def nodeValue (count : Nat) (isGroup : Bool) : F :=
  if isGroup then 1 else sqrt (ofInt count + 1) * 3

def colorTier (count : Nat) (low medium : F) : Int :=
  if count = 0 then 0
  else if FloatMath.lt (ofInt count) low then 1
  else if FloatMath.lt (ofInt count) medium then 2
  else 3

def layoutNodeRadiusMin : F := 20
def layoutNodeRadiusMax : F := 30

/-- Collision radii that match the rendered sizes. -/
def viewRadii (cfg : ViewConfig) (isGroup : Node → Bool) (s : Folding) (kept : List Node) :
    KeyedMap String F :=
  let val (n : Node) : F := nodeValue (effective cfg s.visible n) (isGroup n)
  let minV := kept.foldl (fun m n => if FloatMath.lt (val n) m then val n else m) maxFloat64
  let maxV := kept.foldl (fun m n => if FloatMath.lt m (val n) then val n else m) 0
  kept.foldl (fun radii n =>
    let r :=
      if FloatMath.lt minV maxV then
        layoutNodeRadiusMin
          + (layoutNodeRadiusMax - layoutNodeRadiusMin) * (val n - minV) / (maxV - minV)
      else layoutNodeRadiusMin
    radii.insert n.ip (if s.isSuper n.ip then layoutNodeRadiusMax else r)) ∅

/-- The busiest node that is neither a group nor a supernode sets the colour scale. -/
def maxCount (cfg : ViewConfig) (isGroup : Node → Bool) (s : Folding) (kept : List Node) : Nat :=
  kept.foldl (fun m n =>
    if isGroup n || s.isSuper n.ip then m
    else if m < effective cfg s.visible n then effective cfg s.visible n else m) 1

def residualLabel (tailID : String) (hostCount : Nat) : String :=
  "+" ++ hostCount.repr ++ " more in " ++ baseCIDR tailID

/-- Apply a user override, which wins over what is computed. -/
def NodeOverride.apply (o : NodeOverride F) (vn : ViewNode F) : ViewNode F :=
  let vn := if o.label ≠ "" then { vn with label := o.label } else vn
  let vn := if o.color ≠ "" then { vn with color := o.color } else vn
  let vn := if o.icon ≠ "" then { vn with icon := o.icon } else vn
  match o.pinnedX, o.pinnedY with
  | some x, some y => { vn with x := roundTo x, y := roundTo y, pinned := true }
  | _, _ => vn

/-- A node before supernodes, positions and overrides. -/
def plainNode (cfg : ViewConfig) (ov : OverrideStore F) (s : Folding) (scale : Nat) (n : Node) :
    ViewNode F :=
  let count := effective cfg s.visible n
  let grp := isGroupNode ov n
  let low : F := ofInt scale * decimal 2 1
  let medium : F := ofInt scale * half
  { id := n.ip
    label := if n.hostname = "" then n.ip else n.hostname
    packetCount := n.packetCount
    byteCount := n.byteCount
    role := n.role
    icon := n.icon
    isGroup := grp
    value := nodeValue count grp
    shape := if grp then "box" else "dot"
    colorTier := if grp then 0 else colorTier count low medium
    x := 0
    y := 0 }

/-- A supernode is drawn as a large dot, sized by its hosts. -/
def styleSuper (s : Folding) (vn : ViewNode F) : ViewNode F :=
  let hc := (s.superHosts.lookup vn.id).getD 0
  if 0 < hc then
    let vn := { vn with
      isSubnet := true
      hostCount := hc
      shape := "dot"
      value := sqrt (ofInt hc) * 6 }
    if (s.tailSupers.lookup vn.id).getD false then
      { vn with isTail := true, label := residualLabel vn.id hc, colorTier := 2 }
    else { vn with colorTier := 0 }
  else vn

/-- Positions are rounded to whole pixels. -/
def placeNode (cfg : ViewConfig) (le : Option (LayoutEngine F)) (vn : ViewNode F) : ViewNode F :=
  match le with
  | none => vn
  | some le =>
      let p := le.position cfg.layoutMode vn.id
      { vn with x := roundTo p.x, y := roundTo p.y }

/-- One styled node. -/
def viewNode (cfg : ViewConfig) (le : Option (LayoutEngine F)) (ov : OverrideStore F) (s : Folding)
    (scale : Nat) (n : Node) : ViewNode F :=
  let vn := placeNode cfg le (styleSuper s (plainNode cfg ov s scale n))
  match ov.lookup vn.id with
  | none => vn
  | some o => o.apply vn

/-- A colour and a name are always filled in. -/
def shownProtocol (p : Protocol) : Protocol :=
  let p := if p.color = "" then { p with color := "#95a5a6" } else p
  if p.name = "" then { p with name := "Other" } else p

def edgeWidth (packetCount : Nat) : F :=
  let w := log1p (ofInt packetCount) * half + 1
  let w := if FloatMath.lt w 1 then 1 else w
  if FloatMath.lt 8 w then 8 else w

def viewEdge (e : Edge) : ViewEdge F where
  id := e.id
  fromID := e.fromID
  toID := e.toID
  protocol := shownProtocol e.protocol
  packetCount := e.packetCount
  byteCount := e.byteCount
  forwardPackets := e.forwardPackets
  reversePackets := e.reversePackets
  forwardBytes := e.forwardBytes
  reverseBytes := e.reverseBytes
  width := edgeWidth e.packetCount

/-- The rings of the subnets that still have a node in the view. -/
def viewIslands (le : LayoutEngine F) (kept : List Node) : List (SubnetIsland F) :=
  let keptSubnets := kept.map fun n =>
    let s := primarySubnet24 n
    if s = "" then "unknown" else s
  (le.islandsOf "subnet").filter fun isl =>
    let key := if isl.cidr = "unknown" then "unknown" else trimSuffix isl.cidr ".0/24"
    key ∈ keptSubnets

/-! ## The whole build -/

/-- What a caller passes besides the snapshot and the config. -/
structure ViewInput (F : Type) where
  /-- A layout engine, and the state kept for it. -/
  client : Option (LayoutEngine F × ViewState) := none
  overrides : OverrideStore F := ∅
  pins : KeyedMap String (Vec F) := ∅
  vlanByIP : KeyedMap String UInt16 := ∅

namespace ViewInput

variable (go : Runtime) (raw : RawSnapshot) (cfg : ViewConfig) (input : ViewInput F)

def state : Option ViewState := input.client.map Prod.snd

/-- The folded nodes of a build. -/
def folding : Folding := foldedView go raw cfg (isGroupNode input.overrides) input.state

/-- The nodes a build shows. -/
def shownNodes : List Node := selectNodes F go cfg input.state (input.folding go raw cfg)

/-- The edges between them, before the cut. -/
def shownCandEdges : List Edge :=
  candEdges go cfg (input.folding go raw cfg) (idSet (input.shownNodes go raw cfg)) raw

def shownEdges : List Edge := selectEdges go cfg (input.shownCandEdges go raw cfg)

end ViewInput

/-- The view, and the engine and the state the build leaves. -/
def buildView [RuneCase] (go : Runtime) (raw : RawSnapshot) (cfg : ViewConfig)
    (input : ViewInput F) : ViewSnapshot F × Option (LayoutEngine F × ViewState) :=
  let isGroup := isGroupNode input.overrides
  let s := input.folding go raw cfg
  let kept := input.shownNodes go raw cfg
  let edges := input.shownEdges go raw cfg
  let scale := maxCount cfg isGroup s kept
  let client := input.client.map fun c =>
    (LayoutEngine.step go ⟨kept, edges⟩ [cfg.layoutMode] c.1
      { pins := input.pins, vlanByIP := input.vlanByIP, radii := some (viewRadii cfg isGroup s kept) },
      { aggregated := aggActive cfg input.state (survivors cfg raw).length
        prevKept := some (idSet kept) })
  let le := client.map Prod.fst
  ({ nodes := kept.map (viewNode cfg le input.overrides s scale)
     edges := edges.map viewEdge
     hostToSuper := if s.remapped then s.hostToSuper else ∅
     subnetIslands :=
       match le with
       | some le => if cfg.layoutMode = "subnet" then viewIslands le kept else []
       | none => [] },
    client)

end Styling

end Etherchimp
