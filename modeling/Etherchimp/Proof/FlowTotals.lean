import Etherchimp.Proof.Ledger
import Etherchimp.Server.Tick

/-!
# What a drain returns

Beside the edges the manager keeps two more counts of the packets: by direction and
protocol since the last drain, and by protocol since the start. A packet goes to the flow
its addresses resolve to at the moment it is counted. Merges and decay re-key and remove
edges and leave both counts alone: no packet is drained twice, and none is missing but
for those a `Clear` found undrained.
-/

namespace Etherchimp

open Tally

/-! ## Flows -/

/-- A packet on the flow it is counted on. -/
structure Carried where
  flow : FlowKey
  bytes : Nat

/-- Its weight, as packets and bytes. -/
def Carried.weight (c : Carried) : Nat × Nat := (1, c.bytes)

def TrafficFlow.key (f : TrafficFlow) : FlowKey :=
  ⟨f.edgeID, f.fromID, f.toID, f.protocol, f.color⟩

def TrafficFlow.weight (f : TrafficFlow) : Nat × Nat := (f.packets, f.bytes)

/-- The flow with this key and this weight. -/
def FlowKey.carrying (fk : FlowKey) (w : Nat × Nat) : TrafficFlow where
  edgeID := fk.edgeID
  fromID := fk.fromID
  toID := fk.toID
  packets := w.1
  bytes := w.2
  protocol := fk.protocol
  color := fk.color

/-- The flow of these packets under a key, if there is one. -/
def flowFor (l : List Carried) (fk : FlowKey) : Option TrafficFlow :=
  if ∃ c ∈ l, c.flow = fk then
    some (fk.carrying (total Carried.weight (fun c => c.flow = fk) l))
  else none

/-- The flows of these packets, each once. -/
structure FlowsOf (l : List Carried) (flows : List TrafficFlow) : Prop where
  keys : (flows.map TrafficFlow.key).Nodup
  counted : ∀ f, f ∈ flows ↔ flowFor l f.key = some f

section Flows

variable {l : List Carried} {flows : List TrafficFlow} {fk : FlowKey} {f : TrafficFlow}

theorem flowFor_key (h : flowFor l fk = some f) : f.key = fk := by
  unfold flowFor at h
  split at h
  · obtain rfl := Option.some.inj h
    rfl
  · cases h

theorem flowFor_concat_self (l : List Carried) (c : Carried) :
    flowFor (l ++ [c]) c.flow
      = some (c.flow.carrying (total Carried.weight (fun x => x.flow = c.flow) l + c.weight)) := by
  unfold flowFor
  rw [if_pos ⟨c, List.mem_append_right _ (List.mem_singleton_self c), rfl⟩, total_concat,
    decide_eq_true rfl, if_pos rfl]

theorem flowFor_concat_ne {c : Carried} (hne : fk ≠ c.flow) :
    flowFor (l ++ [c]) fk = flowFor l fk := by
  have hmem : (∃ x ∈ l ++ [c], x.flow = fk) ↔ ∃ x ∈ l, x.flow = fk := by
    constructor
    · rintro ⟨x, hx, hk⟩
      rcases List.mem_append.mp hx with hold | hnew
      · exact ⟨x, hold, hk⟩
      · rw [List.mem_singleton.mp hnew] at hk
        exact absurd hk.symm hne
    · rintro ⟨x, hx, hk⟩
      exact ⟨x, List.mem_append_left _ hx, hk⟩
  unfold flowFor
  rw [if_congr hmem rfl rfl, total_concat, decide_eq_false (Ne.symm hne), if_neg Bool.false_ne_true,
    add_zero]

/-- One more packet on the flows of the interval. -/
theorem addFlow_lookup {m : KeyedMap FlowKey TrafficFlow} (h : ∀ fk, m.lookup fk = flowFor l fk)
    (c : Carried) (fk : FlowKey) :
    (Manager.addFlow m c.flow c.bytes).lookup fk = flowFor (l ++ [c]) fk := by
  by_cases hk : fk = c.flow
  · subst hk
    rw [flowFor_concat_self]
    have hl := h c.flow
    unfold Manager.addFlow
    by_cases hmem : ∃ x ∈ l, x.flow = c.flow
    · rw [flowFor, if_pos hmem] at hl
      simp only [hl, KeyedMap.lookup_insert_eq, if_pos]
      rfl
    · rw [flowFor, if_neg hmem] at hl
      have hzero : total Carried.weight (fun x => x.flow = c.flow) l = 0 :=
        total_eq_zero fun x hx => decide_eq_false fun he => hmem ⟨x, hx, he⟩
      simp only [hl, KeyedMap.lookup_insert_eq, if_pos, hzero, zero_add]
      rfl
  · rw [flowFor_concat_ne hk, ← h fk]
    unfold Manager.addFlow
    split <;> rw [KeyedMap.lookup_insert_eq, if_neg hk]

/-- A drain returns every flow once, in any order. -/
theorem flowsOf_drain {m : KeyedMap FlowKey TrafficFlow} (h : ∀ fk, m.lookup fk = flowFor l fk)
    (go : Runtime) : FlowsOf l ((go.rangeOf m).map fun e => e.2) where
  keys := by
    have hkey : ∀ e ∈ go.rangeOf m, TrafficFlow.key e.2 = e.1 := fun e he =>
      flowFor_key ((h e.1).symm.trans (go.mem_rangeOf.mp he))
    have hkeys : ((go.rangeOf m).map fun e => e.2).map TrafficFlow.key
        = (go.rangeOf m).map Sigma.fst := by
      rw [List.map_map]
      exact List.map_congr_left hkey
    rw [hkeys]
    exact ((go.rangeOf_perm m).map Sigma.fst).nodup_iff.mpr (AList.keys_nodup m)
  counted f := by
    rw [List.mem_map]
    constructor
    · rintro ⟨e, he, rfl⟩
      have hl := (h e.1).symm.trans (go.mem_rangeOf.mp he)
      rwa [flowFor_key hl]
    · intro hf
      exact ⟨⟨f.key, f⟩, go.mem_rangeOf.mpr ((h f.key).trans hf), rfl⟩

/-- The flows together weigh what the packets do. -/
theorem FlowsOf.sum (h : FlowsOf l flows) :
    (flows.map TrafficFlow.weight).sum = (l.map Carried.weight).sum := by
  have hweight : ∀ f ∈ flows, f.weight = total Carried.weight (fun c => c.flow = f.key) l := by
    intro f hf
    have hfor := (h.counted f).mp hf
    unfold flowFor at hfor
    split at hfor
    · exact (congrArg TrafficFlow.weight (Option.some.inj hfor)).symm
    · cases hfor
  have hall : ∀ c ∈ l, c.flow ∈ flows.map TrafficFlow.key := by
    intro c hc
    have hfor : flowFor l c.flow = some (c.flow.carrying
        (total Carried.weight (fun x => x.flow = c.flow) l)) := if_pos ⟨c, hc, rfl⟩
    exact List.mem_map.mpr ⟨c.flow.carrying _, (h.counted (c.flow.carrying _)).mpr hfor, rfl⟩
  rw [List.map_congr_left hweight, ← total_classes Carried.flow h.keys hall, List.map_map]
  rfl

theorem sums_drained {intervals : List (List Carried)} {drained : List (List TrafficFlow)}
    (h : List.Forall₂ FlowsOf intervals drained) :
    (drained.map fun flows => (flows.map TrafficFlow.weight).sum)
      = intervals.map fun l => (l.map Carried.weight).sum := by
  induction h with
  | nil => rfl
  | cons hflows _ ih => rw [List.map_cons, List.map_cons, hflows.sum, ih]

end Flows

/-! ## What leaves both counts alone -/

structure TrafficKept (m m' : Manager) : Prop where
  flows : m'.recentFlows = m.recentFlows
  protos : m'.protoCounts = m.protoCounts

theorem TrafficKept.refl (m : Manager) : TrafficKept m m := ⟨rfl, rfl⟩

theorem TrafficKept.trans {m₁ m₂ m₃ : Manager} (h : TrafficKept m₁ m₂) (h' : TrafficKept m₂ m₃) :
    TrafficKept m₁ m₃ := ⟨h'.flows.trans h.flows, h'.protos.trans h.protos⟩

/-- A fold of steps that leave the counts alone. -/
theorem TrafficKept.foldl {α : Type*} {step : Manager → α → Manager}
    (h : ∀ m a, TrafficKept m (step m a)) (l : List α) (m : Manager) :
    TrafficKept m (l.foldl step m) := by
  induction l generalizing m with
  | nil => exact .refl m
  | cons a l ih => exact (h m a).trans (ih (step m a))

section Kept

variable (m : Manager)

open Manager

theorem trafficKept_observed (pkt : PacketInfo) :
    TrafficKept m ((m.addPortObservationLocked pkt.srcIP pkt.dstIP
      pkt.dstPort).stampDeviceInfoLocked pkt) := by
  have hstamp : ∀ m : Manager, TrafficKept m (m.stampDeviceInfoLocked pkt) := by
    intro m
    unfold stampDeviceInfoLocked
    repeat' split
    all_goals exact ⟨rfl, rfl⟩
  have h := hstamp (m.addPortObservationLocked pkt.srcIP pkt.dstIP pkt.dstPort)
  exact ⟨h.flows, h.protos⟩

theorem trafficKept_staleNodes (threshold now : Int) :
    TrafficKept m (m.removeStaleNodes threshold now).1 := by
  have hone : ∀ (m : Manager) x, TrafficKept m (m.removeNode x) := fun _ _ => ⟨rfl, rfl⟩
  unfold removeStaleNodes
  dsimp only
  refine TrafficKept.trans ?_ (TrafficKept.foldl hone _ _)
  split <;> exact ⟨rfl, rfl⟩

theorem trafficKept_staleEdges (threshold now : Int) :
    TrafficKept m (m.removeStaleEdges threshold now).1 := by
  have hone : ∀ (m : Manager) x, TrafficKept m (m.removeEdge x) := fun _ _ => ⟨rfl, rfl⟩
  unfold removeStaleEdges
  dsimp only
  refine TrafficKept.trans ?_ (TrafficKept.foldl hone _ _)
  split <;> exact ⟨rfl, rfl⟩

variable [RuneCase]

theorem trafficKept_node (ip hostname : String) (bytes : Nat) (now : Int) :
    TrafficKept m (m.addOrUpdateNodeLocked ip hostname bytes now) := by
  have hmerge : ∀ hostname nodeID, TrafficKept m (m.mergePrevious ip hostname nodeID) := by
    intro hostname nodeID
    unfold mergePrevious claimHostname
    dsimp only
    split <;> split <;> exact ⟨rfl, rfl⟩
  have hcount : ∀ (m : Manager) hostname nodeID,
      TrafficKept m (m.countEndpoint nodeID ip hostname bytes now) := by
    intro m hostname nodeID
    unfold countEndpoint
    dsimp only
    split <;> exact ⟨rfl, rfl⟩
  exact (hmerge ..).trans (hcount ..)

theorem trafficKept_promote (nodeID mac : String) :
    TrafficKept m (m.promoteNodeIDToMAC nodeID mac) := by
  unfold promoteNodeIDToMAC
  dsimp only
  repeat' split
  all_goals exact ⟨rfl, rfl⟩

theorem trafficKept_demote (mac : String) : TrafficKept m (m.demoteMACIdentity mac) := by
  unfold demoteMACIdentity
  dsimp only
  repeat' split
  all_goals exact ⟨rfl, rfl⟩

theorem trafficKept_anchor (nodeID mac : String) : TrafficKept m (m.anchorMAC nodeID mac) := by
  have h := trafficKept_promote { m with macToNodeID := m.macToNodeID.insert mac nodeID } nodeID mac
  exact ⟨h.flows, h.protos⟩

theorem trafficKept_record (nodeID mac : String) (now : Int) :
    TrafficKept m (m.recordMACLocked nodeID mac now) := by
  have hnote : ∀ node, TrafficKept m (m.noteMAC nodeID mac node) := by
    intro node
    unfold noteMAC
    split <;> exact ⟨rfl, rfl⟩
  unfold recordMACLocked
  split
  · exact .refl m
  cases m.nodes.lookup nodeID with
  | none => exact .refl m
  | some node =>
    refine (hnote node).trans ?_
    dsimp only
    generalize m.noteMAC nodeID mac node = m
    -- what the MAC does to identity, once it is noted
    split
    · exact .refl m
    split
    · exact trafficKept_anchor m nodeID mac
    split
    · exact trafficKept_promote m nodeID mac
    split
    · exact trafficKept_anchor m nodeID mac
    split
    · have h := trafficKept_demote (m.shareMAC mac) mac
      exact ⟨h.flows, h.protos⟩
    · rename_i anchorID _ _ _ _ _ _
      have h := trafficKept_anchor (m.mergeNodeInto nodeID anchorID node.hostname) nodeID mac
      exact ⟨h.flows, h.protos⟩

theorem trafficKept_mac (ip mac : String) (now : Int) :
    TrafficKept m (m.recordEndpointMAC ip mac now) := by
  unfold recordEndpointMAC
  split
  · exact .refl m
  split
  · exact .refl m
  · exact trafficKept_record m _ mac now

end Kept

/-! ## What counts -/

namespace Manager

/-- The flow of a packet between two addresses, as they resolve. -/
def flowOf (m : Manager) (srcIP dstIP : String) (protocol : Protocol) : FlowKey :=
  ⟨(getCanonicalEdgeID (m.resolve srcIP) (m.resolve dstIP)).1, m.resolve srcIP, m.resolve dstIP,
    protocol.name, protocol.color⟩

/-- A stored edge is loaded unless merged hostnames alone made it a self-loop. -/
def loads (m : Manager) (e : BulkEdge) : Bool :=
  ¬ (m.resolve e.fromID = m.resolve e.toID ∧ e.fromID ≠ e.toID)

end Manager

/-- The packet a call counts, on its flow. -/
def Op.carries [RuneCase] (m : Manager) : Op → List Carried
  | .addOrUpdateEdge srcIP dstIP protocol bytes _ => [⟨m.flowOf srcIP dstIP protocol, bytes⟩]
  | .ingest pkt srcHostname dstHostname clock =>
      let c : IngestCall := ⟨pkt, srcHostname, dstHostname, clock⟩
      [⟨(c.afterMACs m).flowOf pkt.srcIP pkt.dstIP pkt.protocol, pkt.length⟩]
  | _ => []

/-- What a call adds to the totals of the protocols. -/
def Op.tallies [RuneCase] (m : Manager) : Op → List (String × Nat)
  | .addOrUpdateEdge _ _ protocol _ _ => [(protocol.name, 1)]
  | .ingest pkt _ _ _ => [(pkt.protocol.name, 1)]
  | .bulkLoad _ nodes edges clock =>
      (edges.filter (m.bulkNodes nodes clock).loads).map fun e => (e.protocol, e.packetCount)
  | _ => []

/-- The manager holds the flows of these packets and the totals of these tallies. -/
structure Traffic (current : List Carried) (tallied : List (String × Nat)) (m : Manager) : Prop where
  flows : ∀ fk, m.recentFlows.lookup fk = flowFor current fk
  protos : ∀ name, (m.protoCounts.lookup name).getD 0 = total Prod.snd (fun t => t.1 = name) tallied

section Traffic

variable {current : List Carried} {tallied : List (String × Nat)} {m m' : Manager}

theorem Traffic.kept (h : Traffic current tallied m) (hk : TrafficKept m m') :
    Traffic current tallied m' where
  flows := by rw [hk.flows]; exact h.flows
  protos := by rw [hk.protos]; exact h.protos

/-- One more tally under a protocol. -/
theorem lookup_tally {t : KeyedMap String Nat}
    (h : ∀ name, (t.lookup name).getD 0 = total Prod.snd (fun t => t.1 = name) tallied)
    (x : String × Nat) (name : String) :
    ((t.insert x.1 ((t.lookup x.1).getD 0 + x.2)).lookup name).getD 0
      = total Prod.snd (fun t => t.1 = name) (tallied ++ [x]) := by
  rw [total_concat, KeyedMap.lookup_insert_eq]
  by_cases hn : name = x.1
  · subst hn
    rw [if_pos rfl, decide_eq_true rfl, if_pos rfl, ← h]
    rfl
  · rw [if_neg hn, decide_eq_false (Ne.symm hn), if_neg Bool.false_ne_true, add_zero, h]

theorem Traffic.edge (h : Traffic current tallied m) (srcIP dstIP : String) (protocol : Protocol)
    (bytes : Nat) (now : Int) :
    Traffic (current ++ [⟨m.flowOf srcIP dstIP protocol, bytes⟩]) (tallied ++ [(protocol.name, 1)])
      (m.addOrUpdateEdgeLocked srcIP dstIP protocol bytes now) := by
  have hpeers : ∀ (m : Manager) a b, TrafficKept m (m.addPeersLocked a b) := by
    intro m a b
    unfold Manager.addPeersLocked
    repeat' split
    all_goals exact ⟨rfl, rfl⟩
  have hedge : ∀ (m : Manager) edgeID a b fwd,
      TrafficKept m (m.countOnEdge edgeID a b fwd protocol bytes now) := by
    intro m edgeID a b fwd
    unfold Manager.countOnEdge
    split <;> exact ⟨rfl, rfl⟩
  have hkept := fun edgeID a b fwd =>
    (hpeers (m.countProtocol protocol) a b).trans (hedge _ edgeID a b fwd)
  refine ⟨fun fk => ?_, fun name => ?_⟩
  · rw [← addFlow_lookup h.flows]
    exact congrArg (fun t => (Manager.addFlow t _ bytes).lookup fk) (hkept ..).flows
  · rw [← lookup_tally h.protos]
    exact congrArg (fun t => (AList.lookup name t).getD 0) (hkept ..).protos

theorem Traffic.ingest [RuneCase] (h : Traffic current tallied m) (pkt : PacketInfo)
    (srcHostname dstHostname : String) (clock : Manager.IngestClock) :
    Traffic (current ++ Op.carries m (.ingest pkt srcHostname dstHostname clock))
      (tallied ++ [(pkt.protocol.name, 1)]) (m.ingest pkt srcHostname dstHostname clock) := by
  have hmacs : TrafficKept m
      (IngestCall.afterMACs m ⟨pkt, srcHostname, dstHostname, clock⟩) :=
    TrafficKept.trans (show TrafficKept m { m with dirty := true } from ⟨rfl, rfl⟩)
      ((trafficKept_node ..).trans ((trafficKept_node ..).trans
        ((trafficKept_mac ..).trans (trafficKept_mac ..))))
  exact ((h.kept hmacs).edge ..).kept (trafficKept_observed _ pkt)

/-- One stored edge; the lookup of the addresses stays as it was. -/
theorem Traffic.bulkEdge (h : Traffic current tallied m) (reg : Registry) (e : BulkEdge) (now : Int) :
    Traffic current (tallied ++ if m.loads e then [(e.protocol, e.packetCount)] else [])
        (Manager.bulkEdge reg m e now)
      ∧ (Manager.bulkEdge reg m e now).ipToNodeID = m.ipToNodeID := by
  unfold Manager.bulkEdge Manager.loads Manager.addPeersLocked
  dsimp only
  by_cases hloop : m.resolve e.fromID = m.resolve e.toID ∧ e.fromID ≠ e.toID
  · have hskip : m.resolve e.fromID = m.resolve e.toID
        ∧ ¬ decide (e.fromID = e.toID) = true :=
      ⟨hloop.1, fun he => hloop.2 (of_decide_eq_true he)⟩
    rw [if_pos hskip, if_neg fun hd => absurd hloop (of_decide_eq_true hd), List.append_nil]
    exact ⟨h, rfl⟩
  · have hload : ¬ (m.resolve e.fromID = m.resolve e.toID
        ∧ ¬ decide (e.fromID = e.toID) = true) :=
      fun h => hloop ⟨h.1, fun he => h.2 (decide_eq_true he)⟩
    rw [if_neg hload, if_pos (decide_eq_true hloop)]
    refine ⟨⟨?_, fun name => ?_⟩, ?_⟩
    · repeat' split
      all_goals exact h.flows
    · rw [← lookup_tally h.protos]
      repeat' split
      all_goals rfl
    · repeat' split
      all_goals rfl

theorem Traffic.bulkEdges (h : Traffic current tallied m) (reg : Registry) (clock : Nat → Int)
    (n : Nat) (m₀ : Manager) (rows : List (BulkEdge × Nat)) (hip : m.ipToNodeID = m₀.ipToNodeID) :
    Traffic current
      (tallied ++ ((rows.map Prod.fst).filter m₀.loads).map fun e => (e.protocol, e.packetCount))
      (rows.foldl (fun m r => Manager.bulkEdge reg m r.1 (clock (n + r.2))) m) := by
  induction rows generalizing m tallied with
  | nil => simpa using h
  | cons r rows ih =>
    obtain ⟨hrow, hkeep⟩ := h.bulkEdge reg r.1 (clock (n + r.2))
    have hrest := ih hrow (hkeep.trans hip)
    have hloads : m.loads r.1 = m₀.loads r.1 := by
      unfold Manager.loads Manager.resolve
      rw [hip]
    rw [List.append_assoc, hloads] at hrest
    rw [List.foldl_cons, List.map_cons, List.filter_cons]
    split
    · rename_i hl
      rw [if_pos hl] at hrest
      exact hrest
    · rename_i hl
      rw [if_neg hl] at hrest
      exact hrest

theorem Traffic.bulkLoad [RuneCase] (h : Traffic current tallied m) (reg : Registry)
    (nodes : List BulkNode) (edges : List BulkEdge) (clock : Nat → Int) :
    Traffic current (tallied ++ Op.tallies m (.bulkLoad reg nodes edges clock))
      (m.bulkLoad reg nodes edges clock) := by
  have hone : ∀ (m : Manager) (r : BulkNode × Nat),
      TrafficKept m (m.addOrUpdateNodeLocked r.1.id r.1.hostname 0 (clock r.2)) :=
    fun m r => trafficKept_node m r.1.id r.1.hostname 0 (clock r.2)
  have hnodes : TrafficKept m (m.bulkNodes nodes clock) := by
    unfold Manager.bulkNodes
    exact TrafficKept.foldl hone _ m
  have hloaded : Traffic current tallied { m.bulkNodes nodes clock with
      dirty := true
      nodes := (nodes.foldl (Manager.overwriteCounters
        { m.bulkNodes nodes clock with dirty := true }) ((m.bulkNodes nodes clock).nodes, [])).1 } :=
    (h.kept hnodes).kept ⟨rfl, rfl⟩
  have hedges := hloaded.bulkEdges reg clock nodes.length (m.bulkNodes nodes clock) edges.zipIdx rfl
  rw [List.zipIdx_map_fst] at hedges
  unfold Manager.bulkLoad Op.tallies
  exact hedges

end Traffic

/-! ## Whole runs -/

/-- The manager with what its drains returned. -/
structure FlowLog where
  mgr : Manager
  drained : List (List TrafficFlow)
  /-- The packets of each drained interval, those counted since, those a `Clear` dropped, and
  the tallies of the protocols; none of them is kept by the program. -/
  intervals : List (List Carried)
  current : List Carried
  cleared : List Carried
  tallied : List (String × Nat)

namespace FlowLog

inductive Event
  | call (op : Op)
  /-- `DrainFlows`; a range over the map visits the flows in any order. -/
  | drain (go : Runtime)

def start : FlowLog := ⟨newManager, [], [], [], [], []⟩

/-- The packets and bytes an event brings. -/
def Event.weight : Event → Nat × Nat
  | .call (.addOrUpdateEdge _ _ _ bytes _) => (1, bytes)
  | .call (.ingest pkt _ _ _) => (1, pkt.length)
  | _ => 0

/-- Drained, still there or cleared, the packets weigh what was brought. -/
structure Exact (done : List Event) (s : FlowLog) : Prop where
  traffic : Traffic s.current s.tallied s.mgr
  drained : List.Forall₂ FlowsOf s.intervals s.drained
  weight : (s.intervals.map fun l => (l.map Carried.weight).sum).sum
      + (s.current.map Carried.weight).sum + (s.cleared.map Carried.weight).sum
    = (done.map Event.weight).sum

variable {done : List Event} {s : FlowLog}

theorem exact_start : Exact [] start where
  traffic := ⟨fun _ => rfl, fun _ => rfl⟩
  drained := List.Forall₂.nil
  weight := rfl

variable [RuneCase]

def step (s : FlowLog) : Event → FlowLog
  | .call .clear =>
      { s with mgr := s.mgr.clear, current := [], cleared := s.cleared ++ s.current }
  | .call op =>
      { s with
        mgr := op.apply s.mgr
        current := s.current ++ op.carries s.mgr
        tallied := s.tallied ++ op.tallies s.mgr }
  | .drain go =>
      let (flows, m) := s.mgr.drainFlows go
      { s with
        mgr := m
        drained := s.drained ++ [flows]
        intervals := s.intervals ++ [s.current]
        current := [] }

def run (l : List Event) : FlowLog := Run.exec step start l

/-- A call that counts what it carries. -/
theorem Exact.call (h : Exact done s) (op : Op)
    (ht : Traffic (s.current ++ op.carries s.mgr) (s.tallied ++ op.tallies s.mgr) (op.apply s.mgr))
    (hw : ((op.carries s.mgr).map Carried.weight).sum = (Event.call op).weight) :
    Exact (done ++ [.call op])
      { s with
        mgr := op.apply s.mgr
        current := s.current ++ op.carries s.mgr
        tallied := s.tallied ++ op.tallies s.mgr } where
  traffic := ht
  drained := h.drained
  weight := by
    have hweight := h.weight
    simp only [List.map_append, List.sum_append, List.map_cons, List.map_nil, List.sum_singleton,
      hw] at hweight ⊢
    rw [← hweight]
    abel

/-- A call that counts nothing. -/
theorem Exact.idle (h : Exact done s) (op : Op) (hk : TrafficKept s.mgr (op.apply s.mgr))
    (hc : op.carries s.mgr = []) (ht : op.tallies s.mgr = []) (hw : (Event.call op).weight = 0) :
    Exact (done ++ [.call op])
      { s with
        mgr := op.apply s.mgr
        current := s.current ++ op.carries s.mgr
        tallied := s.tallied ++ op.tallies s.mgr } :=
  h.call op (by rw [hc, ht, List.append_nil, List.append_nil]; exact h.traffic.kept hk)
    (by rw [hc, hw]; rfl)

theorem Exact.clear (h : Exact done s) : Exact (done ++ [.call .clear]) (s.step (.call .clear)) where
  traffic := ⟨fun _ => rfl, h.traffic.protos⟩
  drained := h.drained
  weight := by
    have hweight := h.weight
    simp only [step, List.map_append, List.sum_append, List.map_cons, List.map_nil,
      List.sum_singleton, List.sum_nil, Event.weight, add_zero] at hweight ⊢
    rw [← hweight]
    abel

theorem Exact.drain (h : Exact done s) (go : Runtime) :
    Exact (done ++ [.drain go]) (s.step (.drain go)) where
  traffic := ⟨fun _ => rfl, h.traffic.protos⟩
  drained := List.rel_append h.drained
    (List.Forall₂.cons (flowsOf_drain h.traffic.flows go) List.Forall₂.nil)
  weight := by
    have hweight := h.weight
    simp only [step, List.map_append, List.sum_append, List.map_cons, List.map_nil,
      List.sum_singleton, List.sum_nil, Event.weight, add_zero] at hweight ⊢
    exact hweight

theorem Exact.step (h : Exact done s) (e : Event) : Exact (done ++ [e]) (s.step e) := by
  cases e with
  | drain go => exact h.drain go
  | call op =>
    cases op with
    | clear => exact h.clear
    | addOrUpdateNode ip hostname bytes now =>
      exact h.idle _ (trafficKept_node ..) rfl rfl rfl
    | removeStaleNodes threshold now => exact h.idle _ (trafficKept_staleNodes ..) rfl rfl rfl
    | removeStaleEdges threshold now => exact h.idle _ (trafficKept_staleEdges ..) rfl rfl rfl
    | addOrUpdateEdge srcIP dstIP protocol bytes now =>
      exact h.call _ (h.traffic.edge srcIP dstIP protocol bytes now) (add_zero _)
    | ingest pkt srcHostname dstHostname clock =>
      exact h.call _ (h.traffic.ingest pkt srcHostname dstHostname clock) (add_zero _)
    | bulkLoad reg nodes edges clock =>
      refine h.call _ ?_ rfl
      rw [show Op.carries s.mgr (.bulkLoad reg nodes edges clock) = [] from rfl, List.append_nil]
      exact h.traffic.bulkLoad reg nodes edges clock

theorem exact_run (l : List Event) : Exact l (run l) :=
  Run.history_invariant exact_start (fun _ _ e h _ => h.step e) (Run.guarded_true _ l)

/--
Every drain returns each flow once, with the packets and bytes counted on it since the
drain before, and so would the next one. What was drained, what waits and what was
cleared weigh together what all packets do; the protocol totals miss nothing, cleared or not.
-/
theorem flows_drained (l : List Event) :
    List.Forall₂ FlowsOf (run l).intervals (run l).drained
      ∧ (∀ go, FlowsOf (run l).current ((run l).mgr.drainFlows go).1)
      ∧ ((run l).drained.map fun flows => (flows.map TrafficFlow.weight).sum).sum
          + ((run l).current.map Carried.weight).sum + ((run l).cleared.map Carried.weight).sum
        = (l.map Event.weight).sum
      ∧ ∀ name, ((run l).mgr.protoCounts.lookup name).getD 0
        = total Prod.snd (fun t => t.1 = name) (run l).tallied := by
  have h := exact_run l
  refine ⟨h.drained, flowsOf_drain h.traffic.flows, ?_, h.traffic.protos⟩
  rw [sums_drained h.drained]
  exact h.weight

end FlowLog

end Etherchimp
