import Etherchimp.Main.Pipeline
import Etherchimp.Proof.Dns
import Etherchimp.Proof.PacketRing

/-!
# One ingest path

Every consumer of the packets is fed by one goroutine, in one order. `InStep` says how far
each has got with the packets filed so far: the ring, the graph, stream tracking and the
store have all of them, except that the packet in progress has not reached those behind
its stage. What each component became of it is a run of that component alone, so that its
own results hold in the whole.
-/

namespace Etherchimp

/-! ## The components -/

/-- The ring has numbered these packets. -/
def RingHas (ps : PacketStore) (fs : List NamedPacket) : Prop :=
  ∃ added, ps.HoldsLast added
    ∧ List.Forall₂ (fun (d : PacketData) f => ∃ id now, d = packetData id now f.pkt) added fs

/-- What a call files. -/
def Op.filing : Op → Option (PacketInfo × String × String)
  | .ingest pkt srcHostname dstHostname _ => some (pkt, srcHostname, dstHostname)
  | _ => none

/-- The graph is one that these packets and these sweeps leave, and nothing else. -/
def GraphHas [RuneCase] (m : Manager) (fs : List NamedPacket) (sweeps : List Op) : Prop :=
  ∃ ops, m = runOps ops
    ∧ ops.filterMap Op.filing = fs.map (fun f => (f.pkt, f.srcHostname, f.dstHostname))
    ∧ ops.filter (fun op => op.filing.isNone) = sweeps

/-- Stream tracking was handed these packets, but for the counted ones. -/
def StreamsHave (maxStreams : Int) (mgr : StreamManager) (queue : List PacketInfo) (drops : Nat)
    (fs : List NamedPacket) : Prop :=
  ∃ tracked : List (Int × PacketInfo),
    mgr = tracked.foldl (fun mgr x => mgr.addPacket x.1 x.2) (newStreamManager maxStreams)
    ∧ (tracked.map (·.2) ++ queue).Sublist (fs.map (·.pkt))
    ∧ tracked.length + queue.length + drops = fs.length

namespace Store.Action

/-- The event of the aggregate half of `RecordPacket`. -/
def recorded : Store.Action → Option PacketEvent
  | .record ev => some ev
  | _ => none

/-- The event of the index half. -/
def sent : Store.Action → Option PacketEvent
  | .send ev => some ev
  | _ => none

end Store.Action

/-- The events the packets are for the store; outside a capture there are none. -/
def storeEvents (captureID : Int) (fs : List NamedPacket) : List PacketEvent :=
  if captureID = 0 then [] else fs.map fun f => f.event captureID

/--
The store is one that recorded exactly the packets `fs`, was sent some of `is` for its
index, and whose writer took exactly the steps `writes`.
-/
def StoreHas (reg : Registry) (captureID bucketSecs : Int) (db : Store) (fs is : List NamedPacket)
    (writes : List Store.Action) : Prop :=
  ∃ acts, db = Store.run reg bucketSecs acts
    ∧ acts.filterMap Store.Action.recorded = storeEvents captureID fs
    ∧ (acts.filterMap Store.Action.sent).Sublist (storeEvents captureID is)
    ∧ acts.filter (fun a => a.recorded.isNone && a.sent.isNone) = writes

section Components

variable {ps : PacketStore} {fs is : List NamedPacket} {m : Manager} {sweeps : List Op}
  {maxStreams : Int} {mgr : StreamManager} {queue : List PacketInfo} {drops : Nat} {reg : Registry}
  {captureID bucketSecs : Int} {db : Store} {writes : List Store.Action}

theorem RingHas.add (h : RingHas ps fs) (now : Int) (f : NamedPacket) :
    RingHas (ps.addPacket now f.pkt) (fs ++ [f]) := by
  obtain ⟨added, hlast, hpkts⟩ := h
  exact ⟨_, hlast.addPacket now f.pkt,
    List.rel_append hpkts (List.Forall₂.cons ⟨_, now, rfl⟩ List.Forall₂.nil)⟩

theorem GraphHas.ingest [RuneCase] (h : GraphHas m fs sweeps) (f : NamedPacket)
    (clock : Manager.IngestClock) :
    GraphHas (m.ingest f.pkt f.srcHostname f.dstHostname clock) (fs ++ [f]) sweeps := by
  obtain ⟨ops, rfl, hfiled, hswept⟩ := h
  have hrun : runOps (ops ++ [.ingest f.pkt f.srcHostname f.dstHostname clock])
      = (runOps ops).ingest f.pkt f.srcHostname f.dstHostname clock := Run.exec_concat ..
  refine ⟨ops ++ [.ingest f.pkt f.srcHostname f.dstHostname clock], hrun.symm, ?_, ?_⟩
  · rw [List.filterMap_append, hfiled, List.map_append]
    rfl
  · rw [List.filter_append, hswept]
    exact List.append_nil _

theorem GraphHas.sweep [RuneCase] (h : GraphHas m fs sweeps) {op : Op} (hop : op.filing = none) :
    GraphHas (op.apply m) fs (sweeps ++ [op]) := by
  obtain ⟨ops, rfl, hfiled, hswept⟩ := h
  refine ⟨ops ++ [op], (Run.exec_concat ..).symm, ?_, ?_⟩
  · rw [List.filterMap_append, List.filterMap_cons_none hop, hfiled]
    exact List.append_nil _
  · rw [List.filter_append, List.filter_cons_of_pos (by rw [hop]; rfl), hswept]
    rfl

theorem StreamsHave.hand (h : StreamsHave maxStreams mgr queue drops fs) (f : NamedPacket) :
    StreamsHave maxStreams mgr (queue ++ [f.pkt]) drops (fs ++ [f]) := by
  obtain ⟨tracked, hmgr, hsub, hlen⟩ := h
  refine ⟨tracked, hmgr, ?_, ?_⟩
  · rw [← List.append_assoc, List.map_append]
    exact hsub.append (List.Sublist.refl _)
  · simp only [List.length_append, List.length_singleton]
    omega

theorem StreamsHave.drop (h : StreamsHave maxStreams mgr queue drops fs) (f : NamedPacket) :
    StreamsHave maxStreams mgr queue (drops + 1) (fs ++ [f]) := by
  obtain ⟨tracked, hmgr, hsub, hlen⟩ := h
  refine ⟨tracked, hmgr, ?_, ?_⟩
  · rw [List.map_append]
    exact hsub.trans (List.sublist_append_left ..)
  · simp only [List.length_append, List.length_singleton]
    omega

theorem StreamsHave.track {pkt : PacketInfo}
    (h : StreamsHave maxStreams mgr (pkt :: queue) drops fs) (now : Int) :
    StreamsHave maxStreams (mgr.addPacket now pkt) queue drops fs := by
  obtain ⟨tracked, hmgr, hsub, hlen⟩ := h
  refine ⟨tracked ++ [(now, pkt)], ?_, ?_, ?_⟩
  · rw [List.foldl_append, ← hmgr]
    rfl
  · rw [List.map_append, List.append_assoc]
    exact hsub
  · simp only [List.length_append, List.length_cons, List.length_nil] at hlen ⊢
    omega

theorem storeEvents_concat (captureID : Int) (fs : List NamedPacket) (f : NamedPacket) :
    storeEvents captureID (fs ++ [f])
      = storeEvents captureID fs ++ if captureID = 0 then [] else [f.event captureID] := by
  unfold storeEvents
  split
  · rfl
  · exact List.map_append

theorem StoreHas.record (h : StoreHas reg captureID bucketSecs db fs is writes) (f : NamedPacket) :
    StoreHas reg captureID bucketSecs (db.step reg (.record (f.event captureID))) (fs ++ [f]) is
      writes := by
  obtain ⟨acts, rfl, hrecorded, hsent, hwrites⟩ := h
  unfold StoreHas
  rw [storeEvents_concat]
  by_cases hid : captureID = 0
  · have hsame : (Store.run reg bucketSecs acts).step reg (.record (f.event captureID))
        = Store.run reg bucketSecs acts := if_pos hid
    rw [hsame, if_pos hid, List.append_nil]
    exact ⟨acts, rfl, hrecorded, hsent, hwrites⟩
  · rw [if_neg hid]
    refine ⟨acts ++ [.record (f.event captureID)], (Run.exec_concat ..).symm, ?_, ?_, ?_⟩
    · rw [List.filterMap_append, hrecorded]
      rfl
    · rw [List.filterMap_append]
      exact (List.append_nil _).symm ▸ hsent
    · rw [List.filter_append, hwrites]
      exact List.append_nil _

theorem StoreHas.send (h : StoreHas reg captureID bucketSecs db fs is writes) (f : NamedPacket) :
    StoreHas reg captureID bucketSecs (db.step reg (.send (f.event captureID))) fs (is ++ [f])
      writes := by
  obtain ⟨acts, rfl, hrecorded, hsent, hwrites⟩ := h
  unfold StoreHas
  rw [storeEvents_concat]
  by_cases hid : captureID = 0
  · have hsame : (Store.run reg bucketSecs acts).step reg (.send (f.event captureID))
        = Store.run reg bucketSecs acts := if_pos hid
    rw [hsame, if_pos hid, List.append_nil]
    exact ⟨acts, rfl, hrecorded, hsent, hwrites⟩
  · rw [if_neg hid]
    refine ⟨acts ++ [.send (f.event captureID)], (Run.exec_concat ..).symm, ?_, ?_, ?_⟩
    · rw [List.filterMap_append, hrecorded]
      exact List.append_nil _
    · rw [List.filterMap_append]
      exact hsent.append (List.Sublist.refl _)
    · rw [List.filter_append, hwrites]
      exact List.append_nil _

/-- A packet the sampling leaves out. -/
theorem StoreHas.skip (h : StoreHas reg captureID bucketSecs db fs is writes) (f : NamedPacket) :
    StoreHas reg captureID bucketSecs db fs (is ++ [f]) writes := by
  obtain ⟨acts, rfl, hrecorded, hsent, hwrites⟩ := h
  refine ⟨acts, rfl, hrecorded, ?_, hwrites⟩
  rw [storeEvents_concat]
  exact hsent.trans (List.sublist_append_left ..)

theorem StoreHas.write (h : StoreHas reg captureID bucketSecs db fs is writes) {a : Store.Action}
    (hrec : a.recorded = none) (hsend : a.sent = none) :
    StoreHas reg captureID bucketSecs (db.step reg a) fs is (writes ++ [a]) := by
  obtain ⟨acts, rfl, hrecorded, hsent, hwrites⟩ := h
  refine ⟨acts ++ [a], (Run.exec_concat ..).symm, ?_, ?_, ?_⟩
  · rw [List.filterMap_append, List.filterMap_cons_none hrec, hrecorded]
    exact List.append_nil _
  · rw [List.filterMap_append, List.filterMap_cons_none hsend]
    exact (List.append_nil _).symm ▸ hsent
  · rw [List.filter_append, List.filter_cons_of_pos (by rw [hrec, hsend]; rfl), hwrites]
    rfl

end Components

/-! ## Names -/

section Names

variable {r : DNSResolver} {own ip name given : String}

/-- The name is the packet's own, or an answer the resolver gave for the address. -/
def GivenName (r : DNSResolver) (own ip name : String) : Prop :=
  if own ≠ "" then name = own else name ∈ r.answersFor ip

/-- The resolver after events of which no call began before the last had returned. -/
def ReachedFrom (r r' : DNSResolver) : Prop :=
  ∃ evs, r' = Run.exec DNSResolver.step r evs
    ∧ Run.Guarded DNSResolver.step DNSResolver.OneCaller r evs

theorem ReachedFrom.refl (r : DNSResolver) : ReachedFrom r r := ⟨[], rfl, trivial⟩

theorem ReachedFrom.one {e : DNSResolver.Event} (he : DNSResolver.OneCaller r e) :
    ReachedFrom r (r.step e) := ⟨[e], rfl, he, trivial⟩

theorem ReachedFrom.trans {r₁ r₂ r₃ : DNSResolver} (h : ReachedFrom r₁ r₂)
    (h' : ReachedFrom r₂ r₃) : ReachedFrom r₁ r₃ := by
  obtain ⟨evs, rfl, hg⟩ := h
  obtain ⟨evs', rfl, hg'⟩ := h'
  exact ⟨evs ++ evs', (Run.exec_append ..).symm, Run.guarded_append.mpr ⟨hg, hg'⟩⟩

/-- No answer is taken back. -/
theorem answersFor_step (r : DNSResolver) (e : DNSResolver.Event) (h : name ∈ r.answersFor ip) :
    name ∈ (r.step e).answersFor ip := by
  have hgrow : ∀ {r' : DNSResolver} {a b : String}, r'.answers = r.answers ++ [(a, b)] →
      name ∈ r'.answersFor ip := by
    intro r' a b ha
    rw [DNSResolver.answersFor_append ha]
    split
    · rename_i heq
      exact List.mem_append_left _ (heq ▸ h)
    · exact h
  cases e with
  | resolve a =>
    simp only [DNSResolver.step]
    split
    · exact hgrow rfl
    · exact h
  | enqueue i =>
    simp only [DNSResolver.step]
    split
    · exact hgrow rfl
    · exact h
  | cancel => exact h
  | take w | look w | store w _ =>
    simp only [DNSResolver.step]
    split <;> exact h
  | exit w =>
    simp only [DNSResolver.step]
    split
    · split <;> exact h
    · exact h

theorem GivenName.reached {r' : DNSResolver} (h : GivenName r own ip name) (hr : ReachedFrom r r') :
    GivenName r' own ip name := by
  obtain ⟨evs, rfl, -⟩ := hr
  unfold GivenName at *
  split
  · rename_i hown
    rwa [if_pos hown] at h
  · rename_i hown
    rw [if_neg hown] at h
    induction evs generalizing r with
    | nil => exact h
    | cons e evs ih => exact ih (answersFor_step r e h)

/-- A name is found in one step of the call or in two. -/
theorem resolveName_spec (hcalls : r.calls = [] ∨ (r.calls = [ip] ∧ own = "")) :
    ReachedFrom r (Pipeline.resolveName r own ip).1
      ∧ (∀ given, (Pipeline.resolveName r own ip).2 = some given →
          (Pipeline.resolveName r own ip).1.calls = []
            ∧ GivenName (Pipeline.resolveName r own ip).1 own ip given)
      ∧ ((Pipeline.resolveName r own ip).2 = none →
          (Pipeline.resolveName r own ip).1.calls = [ip] ∧ own = "") := by
  unfold Pipeline.resolveName
  by_cases hown : own = ""
  · rw [if_neg (not_not_intro hown)]
    have hgiven : ∀ {r' : DNSResolver} {name : String}, r'.answers = r.answers ++ [(ip, name)] →
        GivenName r' own ip name := by
      intro r' name ha
      unfold GivenName
      rw [if_neg (not_not_intro hown), DNSResolver.answersFor_append ha, if_pos rfl]
      exact List.mem_append_right _ (List.mem_singleton_self _)
    by_cases hnone : r.calls = []
    · rw [if_pos hnone]
      refine ⟨.one (e := .resolve ip) hnone, fun given hg => ?_, fun hg => ?_⟩
      · have hl : r.cache.lookup ip = some given := hg
        simp only [DNSResolver.step, hl]
        exact ⟨hnone, hgiven rfl⟩
      · have hl : r.cache.lookup ip = none := hg
        simp only [DNSResolver.step, hl, hnone]
        exact ⟨rfl, hown⟩
    · rw [if_neg hnone]
      obtain ⟨hone, -⟩ := hcalls.resolve_left hnone
      refine ⟨.one (e := .enqueue 0) trivial, fun given hg => ?_, fun hg => by cases hg⟩
      obtain rfl : ip = given := Option.some.inj hg
      simp only [DNSResolver.step, hone, List.getElem?_cons_zero]
      exact ⟨rfl, hgiven rfl⟩
  · rw [if_pos hown]
    have hnone : r.calls = [] := hcalls.resolve_right fun h => hown h.2
    refine ⟨.refl r, fun given hg => ⟨hnone, ?_⟩, fun hg => by cases hg⟩
    obtain rfl : own = given := Option.some.inj hg
    unfold GivenName
    rw [if_pos hown]

/-- The workers make and end no calls. -/
theorem calls_worker (r : DNSResolver) (w : Nat) (names : Option (List String)) :
    (r.step (.take w)).calls = r.calls ∧ (r.step (.look w)).calls = r.calls
      ∧ (r.step (.store w names)).calls = r.calls := by
  simp only [DNSResolver.step]
  refine ⟨?_, ?_, ?_⟩
  all_goals split <;> rfl

end Names

/-! ## The whole -/

namespace Stage

/-- The packet in progress, once it has its names. -/
def holds : Stage → Option NamedPacket
  | .ring f | .graph f | .streams f | .record f | .index f => some f
  | _ => none

/-- The packet in progress, as long as it has not. -/
def unnamed : Stage → List PacketInfo
  | .source pkt _ | .destination pkt _ _ => [pkt]
  | _ => []

/-- The address a call of `Resolve` may be out for. -/
def asks : Stage → Option String
  | .source pkt _ => if pkt.srcName = "" then some pkt.srcIP else none
  | .destination pkt _ _ => if pkt.dstName = "" then some pkt.dstIP else none
  | _ => none

/-- The packet in progress has not reached a consumer. -/
def beforeRing : Stage → Bool
  | .ring _ => true
  | _ => false

def beforeGraph : Stage → Bool
  | .ring _ | .graph _ => true
  | _ => false

def beforeStreams : Stage → Bool
  | .ring _ | .graph _ | .streams _ => true
  | _ => false

def beforeStore : Stage → Bool
  | .ring _ | .graph _ | .streams _ | .record _ => true
  | _ => false

def beforeIndex (stage : Stage) : Bool := stage.holds.isSome

/-- The packets filed, but for the one in progress if it has not come so far. -/
def past (stage : Stage) (before : Stage → Bool) (filed : List NamedPacket) : List NamedPacket :=
  if before stage then filed.dropLast else filed

theorem of_holds {stage : Stage} {f : NamedPacket} (h : stage.holds = some f ∨ stage = .waiting) :
    stage.unnamed = [] ∧ stage.asks = none ∧ (∀ pkt ts name, stage ≠ .destination pkt ts name) := by
  cases stage with
  | source | destination => rcases h with h | h <;> cases h
  | _ => exact ⟨rfl, rfl, fun _ _ _ hs => by cases hs⟩

end Stage

namespace Pipeline

/-- The sweep of the graph an event is. -/
def Event.sweep : Event → Option Op
  | .decayNodes threshold now => some (.removeStaleNodes threshold now)
  | .decayEdges threshold now => some (.removeStaleEdges threshold now)
  | _ => none

/-- The step of the store's writer an event is. -/
def Event.write : Event → Option Store.Action
  | .receive => some .receive
  | .tick => some .tick
  | .drain => some .drain
  | .commit ok => some (.commit ok)
  | _ => none

/-- What a pipeline is set up with. -/
structure Setup where
  reg : Registry
  captureID : Int
  bucketSecs : Int
  maxStreams : Int

variable [RuneCase] {p : Pipeline} {c : Setup} {sweeps : List Op} {writes : List Store.Action}

/--
Every consumer has the packets filed, in order and once each, up to the one in progress;
besides, the graph had these sweeps and the store's writer took these steps.
-/
structure InStep (c : Setup) (sweeps : List Op) (writes : List Store.Action) (p : Pipeline) :
    Prop where
  channel : (p.filed.map (·.pkt) ++ (p.stage.unnamed ++ p.packetChan)).Sublist p.offered
  offered : p.filed.length + p.stage.unnamed.length + p.packetChan.length + p.chanDrops
    = p.offered.length
  named : ∀ f ∈ p.filed, GivenName p.resolver f.pkt.srcName f.pkt.srcIP f.srcHostname
    ∧ GivenName p.resolver f.pkt.dstName f.pkt.dstIP f.dstHostname
  ring : RingHas p.packetStore (p.stage.past Stage.beforeRing p.filed)
  graph : GraphHas p.graphMgr (p.stage.past Stage.beforeGraph p.filed) sweeps
  streams : StreamsHave c.maxStreams p.streamMgr p.streamCh p.streamDrops
    (p.stage.past Stage.beforeStreams p.filed)
  store : StoreHas c.reg c.captureID c.bucketSecs p.db (p.stage.past Stage.beforeStore p.filed)
    (p.stage.past Stage.beforeIndex p.filed) writes
  /-- The resolver has one caller. -/
  resolver : ReachedFrom newDNSResolver p.resolver
  asking : p.resolver.calls = [] ∨ ∃ ip, p.resolver.calls = [ip] ∧ p.stage.asks = some ip
  naming : ∀ pkt ts name, p.stage = .destination pkt ts name →
    GivenName p.resolver pkt.srcName pkt.srcIP name
  holds : ∀ f, p.stage.holds = some f → ∃ earlier, p.filed = earlier ++ [f]

theorem inStep_start : InStep c [] [] (start c.bucketSecs c.maxStreams) where
  channel := List.Sublist.refl _
  offered := rfl
  named _ h := by cases h
  ring := ⟨[], PacketStore.holdsLast_new _ _, List.Forall₂.nil⟩
  graph := ⟨[], rfl, rfl, rfl⟩
  streams := ⟨[], rfl, List.Sublist.refl _, rfl⟩
  store := ⟨[], rfl, by unfold storeEvents; split <;> rfl, List.nil_sublist _, rfl⟩
  resolver := .refl _
  asking := .inl rfl
  naming _ _ _ h := by cases h
  holds _ h := by cases h

/-- A packet is taken off the channel, and its names are asked for. -/
theorem InStep.taken (h : InStep c sweeps writes p) (hstage : p.stage = .waiting)
    {pkt : PacketInfo} {rest : List PacketInfo} (hchan : p.packetChan = pkt :: rest) (now : Int) :
    InStep c sweeps writes
      { p with packetChan := rest, stage := .source pkt now } := by
  obtain ⟨hchannel, hoffered, hnamed, hring, hgraph, hstreams, hstore, hresolver, hasking, -,
      -⟩ := h
  rw [hstage, hchan] at hchannel hoffered
  rw [hstage] at hring hgraph hstreams hstore hasking
  refine ⟨hchannel, ?_, hnamed, hring, hgraph, hstreams, hstore, hresolver, ?_, fun _ _ _ hs => ?_,
    fun _ hf => ?_⟩
  · simp only [Stage.unnamed, List.length_cons, List.length_nil] at hoffered ⊢
    omega
  · rcases hasking with hnone | ⟨ip, -, hasks⟩
    · exact .inl hnone
    · cases hasks
  · cases hs
  · cases hf

/-- The resolver of the call in progress, when it has come to an address. -/
theorem InStep.calls (h : InStep c sweeps writes p) {own ip : String}
    (hasks : p.stage.asks = if own = "" then some ip else none) :
    p.resolver.calls = [] ∨ (p.resolver.calls = [ip] ∧ own = "") := by
  rcases h.asking with hnone | ⟨a, hcalls, ha⟩
  · exact .inl hnone
  · rw [hasks] at ha
    split at ha
    · rename_i hown
      cases ha
      exact .inr ⟨hcalls, hown⟩
    · cases ha

/-- The resolver moves on while the packet in progress stays where it is. -/
theorem InStep.resolves (h : InStep c sweeps writes p) {r : DNSResolver}
    (hr : ReachedFrom p.resolver r)
    (hasking : r.calls = [] ∨ ∃ ip, r.calls = [ip] ∧ p.stage.asks = some ip) :
    InStep c sweeps writes { p with resolver := r } :=
  ⟨h.channel, h.offered,
    fun f hf => ⟨(h.named f hf).1.reached hr, (h.named f hf).2.reached hr⟩,
    h.ring, h.graph, h.streams, h.store, h.resolver.trans hr, hasking,
    fun pkt ts name hs => (h.naming pkt ts name hs).reached hr, h.holds⟩

theorem InStep.source (h : InStep c sweeps writes p) {pkt : PacketInfo} {ts : Int}
    (hstage : p.stage = .source pkt ts) (now : Int) (clock : Manager.IngestClock) (sampled : Bool) :
    InStep c sweeps writes (p.ingestStep c.reg c.captureID now clock sampled) := by
  have hasks : p.stage.asks = if pkt.srcName = "" then some pkt.srcIP else none :=
    by rw [hstage]; rfl
  obtain ⟨hr, hgiven, hnone⟩ := resolveName_spec (h.calls hasks)
  simp only [Pipeline.ingestStep, hstage]
  generalize Pipeline.resolveName p.resolver pkt.srcName pkt.srcIP = out at hr hgiven hnone
  obtain ⟨r, given⟩ := out
  cases given with
  | none =>
    obtain ⟨hcalls, hown⟩ := hnone rfl
    have hi := h.resolves hr (.inr ⟨pkt.srcIP, hcalls, by rw [hasks, if_pos hown]⟩)
    rwa [hstage] at hi
  | some hostname =>
    obtain ⟨hcalls, hname⟩ := hgiven hostname rfl
    obtain ⟨hchannel, hoffered, hnamed, hring, hgraph, hstreams, hstore, hresolver, -, -, -⟩ :=
      h.resolves hr (.inl hcalls)
    dsimp only at hchannel hoffered hring hgraph hstreams hstore
    rw [hstage] at hchannel hoffered hring hgraph hstreams hstore
    refine ⟨hchannel, hoffered, hnamed, hring, hgraph, hstreams, hstore, hresolver, .inl hcalls,
      fun _ _ _ hs => ?_, fun _ hf => ?_⟩
    · cases hs
      exact hname
    · cases hf

theorem InStep.destination (h : InStep c sweeps writes p) {pkt : PacketInfo}
    {ts : Int} {srcHostname : String} (hstage : p.stage = .destination pkt ts srcHostname)
        (now : Int)
    (clock : Manager.IngestClock) (sampled : Bool) :
    InStep c sweeps writes (p.ingestStep c.reg c.captureID now clock sampled) := by
  have hasks : p.stage.asks = if pkt.dstName = "" then some pkt.dstIP else none :=
    by rw [hstage]; rfl
  obtain ⟨hr, hgiven, hnone⟩ := resolveName_spec (h.calls hasks)
  simp only [Pipeline.ingestStep, hstage]
  generalize Pipeline.resolveName p.resolver pkt.dstName pkt.dstIP = out at hr hgiven hnone
  obtain ⟨r, given⟩ := out
  cases given with
  | none =>
    obtain ⟨hcalls, hown⟩ := hnone rfl
    have hi := h.resolves hr (.inr ⟨pkt.dstIP, hcalls, by rw [hasks, if_pos hown]⟩)
    rwa [hstage] at hi
  | some dstHostname =>
    obtain ⟨hcalls, hname⟩ := hgiven dstHostname rfl
    obtain ⟨hchannel, hoffered, hnamed, hring, hgraph, hstreams, hstore, hresolver, -, hnaming,
        -⟩ :=
      h.resolves hr (.inl hcalls)
    have hsource := hnaming pkt ts srcHostname hstage
    dsimp only at hchannel hoffered hring hgraph hstreams hstore
    rw [hstage] at hchannel hoffered hring hgraph hstreams hstore
    have hlate : ∀ f : NamedPacket, (p.filed ++ [f]).dropLast = p.filed :=
      fun f => List.dropLast_concat
    refine ⟨?_, ?_, fun f hf => ?_, ?_, ?_, ?_, ?_, hresolver, .inl hcalls, fun _ _ _ hs => ?_,
      fun f hf => ?_⟩
    · rw [List.map_append, List.append_assoc]
      exact hchannel
    · simp only [Stage.unnamed, List.length_append, List.length_cons, List.length_nil] at hoffered ⊢
      omega
    · rcases List.mem_append.mp hf with hold | hnew
      · exact hnamed f hold
      · rw [List.mem_singleton.mp hnew]
        exact ⟨hsource, hname⟩
    · show RingHas _ (p.filed ++ [_]).dropLast
      rw [hlate]
      exact hring
    · show GraphHas _ (p.filed ++ [_]).dropLast _
      rw [hlate]
      exact hgraph
    · show StreamsHave _ _ _ _ (p.filed ++ [_]).dropLast
      rw [hlate]
      exact hstreams
    · show StoreHas _ _ _ _ (p.filed ++ [_]).dropLast (p.filed ++ [_]).dropLast _
      rw [hlate]
      exact hstore
    · cases hs
    · cases hf
      exact ⟨p.filed, rfl⟩

/-- A packet with its names goes on to the next consumer, and nothing else happens. -/
theorem InStep.handed (h : InStep c sweeps writes p) {f : NamedPacket}
    {p' : Pipeline} (hstage : p.stage.holds = some f)
    (hstage' : p'.stage.holds = some f ∨ p'.stage = .waiting)
    (hsame : p'.filed = p.filed ∧ p'.packetChan = p.packetChan ∧ p'.chanDrops = p.chanDrops
      ∧ p'.offered = p.offered ∧ p'.resolver = p.resolver)
    (hring : RingHas p'.packetStore (p'.stage.past Stage.beforeRing p.filed))
    (hgraph : GraphHas p'.graphMgr (p'.stage.past Stage.beforeGraph p.filed) sweeps)
    (hstreams : StreamsHave c.maxStreams p'.streamMgr p'.streamCh p'.streamDrops
      (p'.stage.past Stage.beforeStreams p.filed))
    (hstore : StoreHas c.reg c.captureID c.bucketSecs p'.db
        (p'.stage.past Stage.beforeStore p.filed)
      (p'.stage.past Stage.beforeIndex p.filed) writes) :
    InStep c sweeps writes p' := by
  obtain ⟨hunnamed, hasks, -⟩ := Stage.of_holds (.inl hstage)
  obtain ⟨hunnamed', hasks', hnot⟩ := Stage.of_holds hstage'
  obtain ⟨hfiled, hchan, hdrops, hoffered, hresolver⟩ := hsame
  have hcalls : p.resolver.calls = [] := by
    rcases h.asking with hnone | ⟨ip, -, ha⟩
    · exact hnone
    · rw [hasks] at ha
      cases ha
  refine ⟨?_, ?_, ?_, hfiled ▸ hring, hfiled ▸ hgraph, hfiled ▸ hstreams, hfiled ▸ hstore, ?_, ?_,
    fun pkt ts name hs => absurd hs (hnot pkt ts name), fun f' hf' => ?_⟩
  · rw [hfiled, hchan, hoffered, hunnamed', ← hunnamed]
    exact h.channel
  · rw [hfiled, hchan, hoffered, hdrops, hunnamed', ← hunnamed]
    exact h.offered
  · rw [hfiled, hresolver]
    exact h.named
  · rw [hresolver]
    exact h.resolver
  · rw [hresolver]
    exact .inl hcalls
  · rcases hstage' with hs | hs
    · rw [hs] at hf'
      cases hf'
      rw [hfiled]
      exact h.holds f hstage
    · rw [hs] at hf'
      cases hf'

theorem InStep.consumed (h : InStep c sweeps writes p) {f : NamedPacket}
    (hstage : p.stage.holds = some f) (now : Int) (clock : Manager.IngestClock) (sampled : Bool) :
    InStep c sweeps writes (p.ingestStep c.reg c.captureID now clock sampled) := by
  obtain ⟨earlier, hfiled⟩ := h.holds f hstage
  have hring := h.ring
  have hgraph := h.graph
  have hstreams := h.streams
  have hstore := h.store
  rw [hfiled] at hring hgraph hstreams hstore
  have hlate : (earlier ++ [f]).dropLast = earlier := List.dropLast_concat
  cases hs : p.stage with
  | waiting | source | destination =>
    rw [hs] at hstage
    cases hstage
  | ring f' =>
    obtain rfl : f' = f := by
      rw [hs] at hstage
      exact Option.some.inj hstage
    simp only [hs, Stage.past, Stage.beforeRing, Stage.beforeGraph, Stage.beforeStreams,
      Stage.beforeStore, Stage.beforeIndex, Stage.holds, Option.isSome, if_true,
      hlate] at hring hgraph hstreams hstore
    simp only [Pipeline.ingestStep, hs]
    refine h.handed hstage (.inl rfl) ⟨rfl, rfl, rfl, rfl, rfl⟩ ?_ ?_ ?_ ?_
    all_goals simp only [hfiled, Stage.past, Stage.beforeRing, Stage.beforeGraph,
      Stage.beforeStreams, Stage.beforeStore, Stage.beforeIndex, Stage.holds, Option.isSome,
      if_true, hlate, Bool.false_eq_true, if_false]
    · exact hring.add now f'
    · exact hgraph
    · exact hstreams
    · exact hstore
  | graph f' =>
    obtain rfl : f' = f := by
      rw [hs] at hstage
      exact Option.some.inj hstage
    simp only [hs, Stage.past, Stage.beforeRing, Stage.beforeGraph, Stage.beforeStreams,
      Stage.beforeStore, Stage.beforeIndex, Stage.holds, Option.isSome, if_true, hlate,
      Bool.false_eq_true, if_false] at hring hgraph hstreams hstore
    simp only [Pipeline.ingestStep, hs]
    refine h.handed hstage (.inl rfl) ⟨rfl, rfl, rfl, rfl, rfl⟩ ?_ ?_ ?_ ?_
    all_goals simp only [hfiled, Stage.past, Stage.beforeRing, Stage.beforeGraph,
      Stage.beforeStreams, Stage.beforeStore, Stage.beforeIndex, Stage.holds, Option.isSome,
      if_true, hlate, Bool.false_eq_true, if_false]
    · exact hring
    · exact hgraph.ingest f' clock
    · exact hstreams
    · exact hstore
  | streams f' =>
    obtain rfl : f' = f := by
      rw [hs] at hstage
      exact Option.some.inj hstage
    simp only [hs, Stage.past, Stage.beforeRing, Stage.beforeGraph, Stage.beforeStreams,
      Stage.beforeStore, Stage.beforeIndex, Stage.holds, Option.isSome, if_true, hlate,
      Bool.false_eq_true, if_false] at hring hgraph hstreams hstore
    simp only [Pipeline.ingestStep, hs]
    split
    all_goals
      refine h.handed hstage (.inl rfl) ⟨rfl, rfl, rfl, rfl, rfl⟩ ?_ ?_ ?_ ?_
      all_goals simp only [hfiled, Stage.past, Stage.beforeRing, Stage.beforeGraph,
        Stage.beforeStreams, Stage.beforeStore, Stage.beforeIndex, Stage.holds, Option.isSome,
        if_true, hlate, Bool.false_eq_true, if_false]
    · exact hring
    · exact hgraph
    · exact hstreams.hand f'
    · exact hstore
    · exact hring
    · exact hgraph
    · exact hstreams.drop f'
    · exact hstore
  | record f' =>
    obtain rfl : f' = f := by
      rw [hs] at hstage
      exact Option.some.inj hstage
    simp only [hs, Stage.past, Stage.beforeRing, Stage.beforeGraph, Stage.beforeStreams,
      Stage.beforeStore, Stage.beforeIndex, Stage.holds, Option.isSome, if_true, hlate,
      Bool.false_eq_true, if_false] at hring hgraph hstreams hstore
    simp only [Pipeline.ingestStep, hs]
    refine h.handed hstage (.inl rfl) ⟨rfl, rfl, rfl, rfl, rfl⟩ ?_ ?_ ?_ ?_
    all_goals simp only [hfiled, Stage.past, Stage.beforeRing, Stage.beforeGraph,
      Stage.beforeStreams, Stage.beforeStore, Stage.beforeIndex, Stage.holds, Option.isSome,
      if_true, hlate, Bool.false_eq_true, if_false]
    · exact hring
    · exact hgraph
    · exact hstreams
    · exact hstore.record f'
  | index f' =>
    obtain rfl : f' = f := by
      rw [hs] at hstage
      exact Option.some.inj hstage
    simp only [hs, Stage.past, Stage.beforeRing, Stage.beforeGraph, Stage.beforeStreams,
      Stage.beforeStore, Stage.beforeIndex, Stage.holds, Option.isSome, if_true, hlate,
      Bool.false_eq_true, if_false] at hring hgraph hstreams hstore
    simp only [Pipeline.ingestStep, hs]
    refine h.handed hstage (.inr rfl) ⟨rfl, rfl, rfl, rfl, rfl⟩ ?_ ?_ ?_ ?_
    all_goals simp only [hfiled, Stage.past, Stage.beforeRing, Stage.beforeGraph,
      Stage.beforeStreams, Stage.beforeStore, Stage.beforeIndex, Stage.holds, Option.isSome, hlate,
      Bool.false_eq_true, if_false]
    · exact hring
    · exact hgraph
    · exact hstreams
    · split
      · exact hstore.send f'
      · exact hstore.skip f'

theorem InStep.ingestStep (h : InStep c sweeps writes p) (now : Int)
    (clock : Manager.IngestClock) (sampled : Bool) :
    InStep c sweeps writes (p.ingestStep c.reg c.captureID now clock sampled) := by
  cases hs : p.stage with
  | waiting =>
    simp only [Pipeline.ingestStep, hs]
    split
    · rename_i pkt rest hchan
      exact h.taken hs hchan now
    · exact h
  | source pkt ts => exact h.source hs now clock sampled
  | destination pkt ts srcHostname => exact h.destination hs now clock sampled
  | ring f | graph f | streams f | record f | index f =>
    exact h.consumed (by rw [hs]; rfl) now clock sampled

/-- The capture offers a packet; a full channel drops it. -/
theorem InStep.capture (h : InStep c sweeps writes p) (pkt : PacketInfo) :
    InStep c sweeps writes (p.step c.reg c.captureID (.capture pkt)) := by
  have hoffered := h.offered
  simp only [Pipeline.step]
  split
  · refine ⟨?_, ?_, h.named, h.ring, h.graph, h.streams, h.store, h.resolver, h.asking, h.naming,
      h.holds⟩
    · rw [← List.append_assoc p.stage.unnamed, ← List.append_assoc]
      exact h.channel.append (List.Sublist.refl _)
    · simp only [List.length_append, List.length_singleton]
      omega
  · refine ⟨h.channel.trans (List.sublist_append_left ..), ?_, h.named, h.ring, h.graph, h.streams,
      h.store, h.resolver, h.asking, h.naming, h.holds⟩
    simp only [List.length_append, List.length_singleton]
    omega

/-- A worker of the resolver goes on. -/
theorem InStep.worker (h : InStep c sweeps writes p) {e : DNSResolver.Event}
    (he : DNSResolver.OneCaller p.resolver e)
    (hcalls : (p.resolver.step e).calls = p.resolver.calls) :
    InStep c sweeps writes { p with resolver := p.resolver.step e } :=
  h.resolves (.one he) (hcalls ▸ h.asking)

/-- The graph decays. -/
theorem InStep.decays (h : InStep c sweeps writes p) {op : Op} (hop : op.filing = none) :
    InStep c (sweeps ++ [op]) writes { p with graphMgr := op.apply p.graphMgr } :=
  ⟨h.channel, h.offered, h.named, h.ring, h.graph.sweep hop, h.streams, h.store, h.resolver,
    h.asking, h.naming, h.holds⟩

/-- The store's writer goes on. -/
theorem InStep.written (h : InStep c sweeps writes p) {a : Store.Action} (hrec : a.recorded = none)
    (hsend : a.sent = none) :
    InStep c sweeps (writes ++ [a]) { p with db := p.db.step c.reg a } :=
  ⟨h.channel, h.offered, h.named, h.ring, h.graph, h.streams, h.store.write hrec hsend, h.resolver,
    h.asking, h.naming, h.holds⟩

theorem InStep.step (h : InStep c sweeps writes p) (e : Event) :
    InStep c (sweeps ++ e.sweep.toList) (writes ++ e.write.toList)
      (p.step c.reg c.captureID e) := by
  have hnil : ∀ {p' : Pipeline}, InStep c sweeps writes p' → InStep c (sweeps ++ [])
    (writes ++ []) p' := by
    intro p' h'
    rwa [List.append_nil, List.append_nil]
  have hidle : ∀ {ws : List Store.Action} {p' : Pipeline}, InStep c sweeps ws p' →
      InStep c (sweeps ++ []) ws p' := by
    intro ws p' h'
    rwa [List.append_nil]
  cases e with
  | capture pkt => exact hnil (h.capture pkt)
  | ingest now clock sampled => exact hnil (h.ingestStep now clock sampled)
  | take w => exact hnil (h.worker trivial (calls_worker p.resolver w none).1)
  | look w => exact hnil (h.worker trivial (calls_worker p.resolver w none).2.1)
  | resolved w names => exact hnil (h.worker trivial (calls_worker p.resolver w names).2.2)
  | track now =>
    refine hnil ?_
    simp only [Pipeline.step]
    split
    · rename_i pkt rest hqueue
      have hstreams := h.streams
      rw [hqueue] at hstreams
      exact ⟨h.channel, h.offered, h.named, h.ring, h.graph, hstreams.track now, h.store,
        h.resolver, h.asking, h.naming, h.holds⟩
    · exact h
  | decayNodes threshold now =>
    have hd := InStep.decays h (show (Op.removeStaleNodes threshold now).filing = none from rfl)
    rwa [← List.append_nil writes] at hd
  | decayEdges threshold now =>
    have hd := InStep.decays h (show (Op.removeStaleEdges threshold now).filing = none from rfl)
    rwa [← List.append_nil writes] at hd
  | receive => exact hidle (h.written (a := .receive) rfl rfl)
  | tick => exact hidle (h.written (a := .tick) rfl rfl)
  | drain => exact hidle (h.written (a := .drain) rfl rfl)
  | commit ok => exact hidle (h.written (a := .commit ok) rfl rfl)

/--
In every run, whatever acts between two steps of a packet, each consumer has exactly the
packets filed so far, under the same names and in the same order, but for the packet in
progress and for what stream tracking counted as dropped. Nothing else was done to the
graph but the sweeps of the run, nor to the store but the steps of its writer.
-/
theorem pipeline_inStep (reg : Registry) (captureID bucketSecs maxStreams : Int) (l : List Event) :
    InStep ⟨reg, captureID, bucketSecs, maxStreams⟩ (l.filterMap Event.sweep)
      (l.filterMap Event.write) (run reg captureID bucketSecs maxStreams l) := by
  refine Run.history_invariant (P := fun done p => InStep ⟨reg, captureID, bucketSecs, maxStreams⟩
    (done.filterMap Event.sweep) (done.filterMap Event.write) p) inStep_start
    (fun done p e h _ => ?_) (Run.guarded_true _ l)
  rw [List.filterMap_append, List.filterMap_append]
  have hs := h.step e
  cases e <;> exact hs

end Pipeline

end Etherchimp
