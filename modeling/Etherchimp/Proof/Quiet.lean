import Etherchimp.Proof.Control
import Etherchimp.Proof.LiveStreams
import Etherchimp.Proof.Solar

/-!
# At rest every stream has come to the graph

Whoever changes something that a view is made of also leaves a mark. A call on the graph
sets its dirty flag, a control message the client's full flag, and a request that changes
an override puts a token into the hub's channel before it is answered. So when no mark is
left, nothing has changed since the last tick went through the clients, and what the
messages of a client add up to is a view of the graph and the overrides as they are.

A tick clears the marks it has seen to. It may return early over a large graph that goes
on changing, and then the dirty flag stays.
-/

namespace Etherchimp

open Panic

/-! ## The dirty flag -/

section Dirty

variable [RuneCase] {m : Manager}

namespace Manager

theorem addOrUpdateNodeLocked_dirty (m : Manager) (ip hostname : String) (bytes : Nat) (now : Int) :
    (m.addOrUpdateNodeLocked ip hostname bytes now).dirty = true := by
  unfold addOrUpdateNodeLocked countEndpoint mergePrevious claimHostname
  dsimp only
  split <;> split <;> split <;> rfl

omit [RuneCase] in
theorem addPeersLocked_dirty (m : Manager) (aID bID : String) :
    (m.addPeersLocked aID bID).dirty = m.dirty := by
  unfold addPeersLocked
  split
  · rfl
  · split <;> rfl

omit [RuneCase] in
theorem addOrUpdateEdgeLocked_dirty (m : Manager) (srcIP dstIP : String) (protocol : Protocol)
    (bytes : Nat) (now : Int) : (m.addOrUpdateEdgeLocked srcIP dstIP protocol bytes now).dirty = true := by
  have hcount : ∀ (m : Manager) (edgeID fromID toID : String) (fwd : Bool),
      (m.countOnEdge edgeID fromID toID fwd protocol bytes now).dirty = m.dirty := by
    intro m edgeID fromID toID fwd
    unfold countOnEdge
    split <;> rfl
  unfold addOrUpdateEdgeLocked
  dsimp only
  rw [hcount, addPeersLocked_dirty]
  rfl

theorem ingest_dirty (m : Manager) (pkt : PacketInfo) (srcHostname dstHostname : String)
    (clock : IngestClock) : (m.ingest pkt srcHostname dstHostname clock).dirty = true := by
  have hstamp : ∀ m : Manager, (m.stampDeviceInfoLocked pkt).dirty = m.dirty := by
    intro m
    unfold stampDeviceInfoLocked
    split
    · rfl
    · split <;> rfl
  have hport : ∀ m : Manager,
      (m.addPortObservationLocked pkt.srcIP pkt.dstIP pkt.dstPort).dirty = m.dirty := fun _ => rfl
  unfold ingest
  dsimp only
  rw [hstamp, hport, addOrUpdateEdgeLocked_dirty]

omit [RuneCase] in
theorem bulkEdge_dirty (reg : Registry) (m : Manager) (e : BulkEdge) (now : Int) :
    (m.bulkEdge reg e now).dirty = m.dirty := by
  unfold bulkEdge
  dsimp only
  split
  · rfl
  · generalize getCanonicalEdgeID (m.resolve e.fromID) (m.resolve e.toID) = c
    have hpeers := addPeersLocked_dirty m c.2.1 c.2.2
    generalize m.addPeersLocked c.2.1 c.2.2 = m₁ at hpeers ⊢
    dsimp only
    rw [← hpeers]
    split <;> rfl

theorem bulkLoad_dirty (m : Manager) (reg : Registry) (nodes : List BulkNode)
    (edges : List BulkEdge) (clock : Nat → Int) : (m.bulkLoad reg nodes edges clock).dirty = true := by
  have hedges : ∀ (rows : List (BulkEdge × Nat)) (m : Manager), m.dirty = true →
      (rows.foldl (fun m r => m.bulkEdge reg r.1 (clock (nodes.length + r.2))) m).dirty = true := by
    intro rows
    induction rows with
    | nil => exact fun _ h => h
    | cons r rows ih => exact fun m h => ih _ ((bulkEdge_dirty reg m r.1 _).trans h)
  unfold bulkLoad
  exact hedges edges.zipIdx _ rfl

end Manager

/-- **A call that leaves the graph clean has left it as it was.** -/
theorem apply_clean (m : Manager) (op : Op) (h : (op.apply m).dirty = false) :
    m.dirty = false ∧ (op.apply m).snapshotRaw = m.snapshotRaw := by
  have hdirty : ∀ m' : Manager, m'.dirty = true → m'.dirty = false → False := fun _ h h' =>
    Bool.noConfusion (h.symm.trans h')
  cases op with
  | addOrUpdateNode => exact absurd h (hdirty _ (Manager.addOrUpdateNodeLocked_dirty ..))
  | addOrUpdateEdge => exact absurd h (hdirty _ (Manager.addOrUpdateEdgeLocked_dirty ..))
  | ingest => exact absurd h (hdirty _ (Manager.ingest_dirty ..))
  | bulkLoad => exact absurd h (hdirty _ (Manager.bulkLoad_dirty ..))
  | clear => exact absurd h (hdirty _ rfl)
  | removeStaleNodes threshold now =>
    have h : (m.removeStaleNodes threshold now).1.dirty = false := h
    show m.dirty = false ∧ (m.removeStaleNodes threshold now).1.snapshotRaw = m.snapshotRaw
    unfold Manager.removeStaleNodes at h ⊢
    dsimp only at h ⊢
    split at h
    · exact absurd h (hdirty _ (List.foldlRecOn (motive := fun m : Manager => m.dirty = true)
        _ _ rfl fun _ hm _ _ => hm))
    · rename_i hnil
      rw [not_not.mp hnil] at h ⊢
      exact ⟨h, rfl⟩
  | removeStaleEdges threshold now =>
    have h : (m.removeStaleEdges threshold now).1.dirty = false := h
    show m.dirty = false ∧ (m.removeStaleEdges threshold now).1.snapshotRaw = m.snapshotRaw
    unfold Manager.removeStaleEdges at h ⊢
    dsimp only at h ⊢
    split at h
    · exact absurd h (hdirty _ (List.foldlRecOn (motive := fun m : Manager => m.dirty = true)
        _ _ rfl fun _ hm _ _ => hm))
    · rename_i hnil
      rw [not_not.mp hnil] at h ⊢
      exact ⟨h, rfl⟩

end Dirty

/-! ## What a step does to a client at rest -/

variable {F : Type}

/-- A message that asks for no full view changes nothing for a client that sees the live graph. -/
theorem applyControl_mild (c : Client F) (msg : ControlMsg)
    (hfull : (c.applyControl msg).needsFull = false) (hlive : (c.applyControl msg).Live) :
    c.applyControl msg = c := by
  have hasked : ∀ c' : Client F, c'.needsFull = true → c'.needsFull = false → False :=
    fun _ h h' => Bool.noConfusion (h.symm.trans h')
  cases msg with
  | setFilters | setAggregation | resync => exact absurd hfull (hasked _ rfl)
  | malformed => rfl
  | setLayout mode =>
    unfold Client.applyControl at hfull ⊢
    dsimp only at hfull ⊢
    split at hfull
    · rw [if_pos ‹_›]
    · exact absurd hfull (hasked _ rfl)
  | setViewMode mode =>
    unfold Client.applyControl at hfull ⊢
    dsimp only at hfull ⊢
    split at hfull
    · exact absurd hfull (hasked _ rfl)
    · rw [if_neg ‹_›]
  | setTimeline captureID t window =>
    have hcurrent := hlive.current
    unfold Client.applyControl at hfull hcurrent ⊢
    dsimp only at hfull hcurrent ⊢
    split at hfull
    · rename_i hexit
      rw [if_pos hexit]
      split at hfull
      · exact absurd hfull (hasked _ rfl)
      · rw [if_neg ‹_›]
    · rename_i hstay
      rw [if_neg hstay] at hcurrent
      -- whoever scrubs does not see the live graph
      split at hcurrent
      · split at hcurrent <;> cases hcurrent
      · cases hcurrent

namespace Hub

/-- Whoever asks for nothing after the step was there before it, and is as it was. -/
def Mild (h h' : Hub F) : Prop :=
  ∀ a ∈ h'.clients, (h'.conn a).needsFull = false → (h'.conn a).Live →
    a ∈ h.clients ∧ h'.conn a = h.conn a

variable {h : Hub F} {id : Nat}

theorem mild_register (hnew : (h.conn id).needsFull = true) :
    Mild h { h with clients := h.clients.insert id true } := by
  intro a ha hfull _
  rcases (AList.mem_insert _).mp ha with rfl | ha
  · exact absurd (hnew.symm.trans hfull) Bool.noConfusion
  · exact ⟨ha, rfl⟩

theorem mild_control (msg : ControlMsg) : Mild h (h.setConn id ((h.conn id).applyControl msg)) := by
  intro a ha hfull hlive
  refine ⟨ha, ?_⟩
  by_cases hae : a = id
  · subst hae
    have hself : (h.setConn a ((h.conn a).applyControl msg)).conn a
        = (h.conn a).applyControl msg := Function.update_self ..
    rw [hself] at hfull hlive ⊢
    exact applyControl_mild _ msg hfull hlive
  · exact Function.update_of_ne hae _ _

end Hub

section Live

variable [FloatMath F] [RuneCase]

namespace TickHub

/-- On a clean graph, whoever asks for nothing and sees the live graph is up to date. -/
def Current (P : OverrideStore F → Prop) (h : TickHub F) : Prop :=
  h.graphMgr.dirty = false → ∀ id ∈ h.hub.clients, (h.hub.conn id).needsFull = false →
    (h.hub.conn id).Live → UpToDate P h.graphMgr.snapshotRaw (h.hub.conn id)

variable {P : OverrideStore F → Prop} {h h' : TickHub F}

theorem Current.mild (hc : Current P h) (hgraph : h'.graphMgr = h.graphMgr)
    (hhub : Hub.Mild h.hub h'.hub) : Current P h' := by
  intro hclean a ha hfull hlive
  obtain ⟨hin, hsame⟩ := hhub a ha hfull hlive
  rw [hgraph] at hclean ⊢
  rw [hsame] at hfull hlive ⊢
  exact hc hclean a hin hfull hlive

theorem Current.graph (hc : Current P h) (op : Op) :
    Current P { h with graphMgr := op.apply h.graphMgr } := by
  intro hclean a ha hfull hlive
  obtain ⟨hbefore, hsame⟩ := apply_clean h.graphMgr op hclean
  show UpToDate P (op.apply h.graphMgr).snapshotRaw (h.hub.conn a)
  rw [hsame]
  exact hc hbefore a ha hfull hlive

theorem Current.tick {sofar : Nat → ViewMirror F} (hc : Current P h) (ht : Ticked P sofar h h') :
    Current P h' := by
  intro hclean a ha hfull hlive
  rcases ht.served with ⟨hhub, hdirty, -⟩ | ⟨-, hserved⟩
  · have hsame : h'.graphMgr.snapshotRaw = h.graphMgr.snapshotRaw := by
      unfold Manager.snapshotRaw
      rw [ht.nodes, ht.edges]
    rw [hhub] at ha hfull hlive ⊢
    rw [hsame]
    exact hc (hdirty ▸ hclean) a ha hfull hlive
  · exact hserved a ha hlive

/-! ## No panic -/

theorem viewFor_hub (rng : Nat → F) (env : TickEnv F) (vlanByIP : KeyedMap String UInt16)
    (s : Serving F) (id : Nat) : (viewFor rng env vlanByIP s id).2.1.hub = s.1.hub := by
  obtain ⟨h, bucketViews⟩ := s
  unfold viewFor
  dsimp only
  split
  · rfl
  · split
    · rfl
    · split
      · rfl
      · unfold build sharedEngineFor
        dsimp only
        split <;> rfl

theorem tick_open {seen : List Nat} (rng : Nat → F) (env : TickEnv F)
    (hi : Hub.Open seen h.hub) : Ends (h.tick rng env) fun h' => Hub.Open seen h'.hub := by
  have hserve : ∀ vlanByIP flows (s : Serving F) (id : Nat), Hub.Open seen s.1.hub →
      Ends (serveClient rng env vlanByIP flows s id) fun s' => Hub.Open seen s'.1.hub := by
    intro vlanByIP flows s id hs
    unfold serveClient
    split
    · exact ends_pure hs
    · rename_i hin
      have hhub := viewFor_hub rng env vlanByIP s id
      generalize viewFor rng env vlanByIP s id = r at hhub
      obtain ⟨view, h', bucketViews⟩ := r
      have hhub : h'.hub = s.1.hub := hhub
      dsimp only
      rw [hhub]
      exact (Hub.serve_ends _ hs (not_not.mp hin)).bind fun hub hopen => ends_pure hopen
  unfold TickHub.tick
  split
  · exact ends_pure hi
  · split
    · exact ends_pure hi
    · dsimp only
      split
      · exact ends_pure hi
      · refine (Ends.foldlM (P := fun s : Serving F => Hub.Open seen s.1.hub)
          (fun s id hs => hserve _ _ s id hs) _ ?_).bind fun s hs => ends_pure hs
        exact hi

end TickHub

/-! ## One step of everything -/

namespace LiveHub

/-- The words are ids, messages can be written, and stored windows are in order. -/
def Event.InOrder : Event F → Prop
  | .hub (.graph op) => op.Words IDWord
  | .hub (.tick env) =>
      (∀ d, env.marshals (.style d) = true) ∧ ∀ w, (env.timelineRaw w).WellFormed
  | _ => True

/-- The clients that register, in order. -/
def registrations (l : List (Event F)) : List Nat :=
  l.filterMap fun | .hub (.register id) => some id | _ => none

/-- The invariant. -/
structure InService (seen : List Nat) (s : LiveHub F) : Prop where
  channels : Hub.Open seen s.ticks.hub
  graph : s.ticks.graphMgr.InOrder
  streams : StreamsInStep s.streamed s.ticks.hub
  /-- Whoever has not registered yet will ask for a full view. -/
  unseen : ∀ id, id ∉ seen → (s.ticks.hub.conn id).needsFull = true
  drawn : TickHub.Current (fun _ => True) s.ticks
  customized : s.resyncAll = false → s.unmarked = 0 →
    TickHub.Current (fun ov => ov = s.overrides.shown) s.ticks

variable {seen : List Nat} {s : LiveHub F} {id : Nat}

/-- A step of the hub that sends nothing and asks nothing of clients that stay at rest. -/
theorem InService.mild {seen' : List Nat} {h' : TickHub F} (hi : InService seen s)
    (hopen : Hub.Open seen' h'.hub) (hgraph : h'.graphMgr = s.ticks.graphMgr)
    (hmild : Hub.Mild s.ticks.hub h'.hub) (hstreams : StreamsInStep s.streamed h'.hub)
    (hunseen : ∀ a, a ∉ seen' → (h'.hub.conn a).needsFull = true) :
    InService seen' { s with ticks := h' } where
  channels := hopen
  graph := by
    show h'.graphMgr.InOrder
    rw [hgraph]
    exact hi.graph
  streams := hstreams
  unseen := hunseen
  drawn := hi.drawn.mild hgraph hmild
  customized htoken hmarked := (hi.customized htoken hmarked).mild hgraph hmild

theorem InService.register (hi : InService seen s) (hnew : id ∉ seen) :
    InService (id :: seen) { s with
      ticks := { s.ticks with
        hub := { s.ticks.hub with clients := s.ticks.hub.clients.insert id true } } } := by
  obtain ⟨hub, hhub, hopen⟩ := Hub.step_ends hi.channels (.register id)
    fun a ha => List.mem_singleton.mp ha ▸ hnew
  cases hhub
  exact hi.mild hopen rfl (Hub.mild_register (hi.unseen id hnew)) hi.streams
    fun a ha => hi.unseen a fun h => ha (List.mem_cons_of_mem _ h)

theorem InService.unregister (hi : InService seen s) (id : Nat) :
    Ends (s.ticks.hub.step (.unregister id)) fun hub =>
      InService seen { s with ticks := { s.ticks with hub := hub } } := by
  unfold Hub.step
  dsimp only
  split
  · rename_i hin
    rw [Hub.close_open (hi.channels.mem_open id hin), ok_bind]
    refine ends_pure (hi.mild (hi.channels.drop hin) rfl
      (fun a ha _ _ => ⟨(AList.mem_erase.mp ha).2, rfl⟩) (fun a hopen => ?_) hi.unseen)
    by_cases hae : a = id
    · subst hae
      simp only [Hub.setChan, Function.update_self] at hopen
      cases hopen
    · simp only [Hub.setChan, Function.update_of_ne hae] at hopen ⊢
      exact hi.streams a hopen
  · exact ends_pure (hi.mild hi.channels rfl (fun a ha _ _ => ⟨ha, rfl⟩) hi.streams hi.unseen)

theorem InService.control (hi : InService seen s) (msg : ControlMsg) :
    InService seen { s with
      ticks := { s.ticks with
        hub := s.ticks.hub.setConn id ((s.ticks.hub.conn id).applyControl msg) } } := by
  have hconn : ∀ a, a ≠ id →
      (s.ticks.hub.setConn id ((s.ticks.hub.conn id).applyControl msg)).conn a
        = s.ticks.hub.conn a := fun a ha => Function.update_of_ne ha _ _
  have hself : (s.ticks.hub.setConn id ((s.ticks.hub.conn id).applyControl msg)).conn id
      = (s.ticks.hub.conn id).applyControl msg := Function.update_self ..
  refine hi.mild (hi.channels.setConn _) rfl (Hub.mild_control msg) (fun a hopen => ?_) fun a ha => ?_
  · by_cases hae : a = id
    · subst hae
      obtain ⟨hn, he⟩ := applyControl_style (s.ticks.hub.conn a) msg
      have hin := hi.streams a hopen
      show InStep ((s.ticks.hub.setConn a _).conn a, _)
      rw [hself]
      exact hin.congr hn he rfl
    · show InStep ((s.ticks.hub.setConn id _).conn a, _)
      rw [hconn a hae]
      exact hi.streams a hopen
  · by_cases hae : a = id
    · subst hae
      show ((s.ticks.hub.setConn a _).conn a).needsFull = true
      rw [hself]
      rcases applyControl_asks (s.ticks.hub.conn a) msg with hfull | ⟨hsame, -⟩
      · exact hfull
      · exact hsame.trans (hi.unseen a ha)
    · show ((s.ticks.hub.setConn id _).conn a).needsFull = true
      rw [hconn a hae]
      exact hi.unseen a ha

/-- The pump sends what it takes off the channel. -/
theorem InService.drain (hi : InService seen s) (n : Nat) :
    InService seen { s with
      ticks := { s.ticks with hub := s.ticks.hub.setChan id ((s.ticks.hub.chan id).drain n) }
      sent := Function.update s.sent id (s.sent id ++ (s.ticks.hub.chan id).queue.take n) } where
  channels := hi.channels.setChan rfl
  graph := hi.graph
  streams := by
    intro a hopen
    by_cases hae : a = id
    · subst hae
      simp only [Hub.setChan, Function.update_self] at hopen ⊢
      have hsplit : (SendChan.drain (s.ticks.hub.chan a) n).total
          ((s.sent a ++ (s.ticks.hub.chan a).queue.take n).foldl ViewMirror.add {})
            = (s.ticks.hub.chan a).total (s.streamed a) := by
        unfold SendChan.total SendChan.drain streamed
        rw [List.foldl_append, ← List.foldl_append, List.take_append_drop]
      unfold streamed
      dsimp only
      rw [Function.update_self, hsplit]
      exact hi.streams a hopen
    · simp only [Hub.setChan, Function.update_of_ne hae] at hopen ⊢
      unfold streamed
      dsimp only
      rw [Function.update_of_ne hae]
      exact hi.streams a hopen
  unseen := hi.unseen
  drawn := hi.drawn
  customized := hi.customized

theorem InService.resyncAll (hi : InService seen s) :
    InService seen { s with
      ticks := { s.ticks with hub := { s.ticks.hub with
        conn := fun id =>
          if id ∈ s.ticks.hub.clients then { s.ticks.hub.conn id with needsFull := true }
          else s.ticks.hub.conn id } }
      resyncAll := false } := by
  have hasked : ∀ P, TickHub.Current P { s.ticks with hub := { s.ticks.hub with
      conn := fun id =>
        if id ∈ s.ticks.hub.clients then { s.ticks.hub.conn id with needsFull := true }
        else s.ticks.hub.conn id } } := by
    intro P _ a ha hfull _
    have hfull : (if a ∈ s.ticks.hub.clients then { s.ticks.hub.conn a with needsFull := true }
        else s.ticks.hub.conn a).needsFull = false := hfull
    rw [if_pos ha] at hfull
    cases hfull
  refine
    { channels := ⟨hi.channels.mem_seen, hi.channels.mem_open, hi.channels.closed_seen⟩
      graph := hi.graph, streams := fun a hopen => ?_, unseen := fun a ha => ?_
      drawn := hasked _, customized := fun _ _ => hasked _ }
  · have hin := hi.streams a hopen
    dsimp only
    split
    · exact ⟨hin.nodes, hin.edges⟩
    · exact hin
  · dsimp only
    split
    · rfl
    · exact hi.unseen a ha

theorem InService.graphOp (hi : InService seen s) {op : Op} (hop : op.Words IDWord) :
    InService seen { s with ticks := { s.ticks with graphMgr := op.apply s.ticks.graphMgr } } where
  channels := hi.channels
  graph := hi.graph.step hop
  streams := hi.streams
  unseen := hi.unseen
  drawn := hi.drawn.graph op
  customized htoken hmarked := (hi.customized htoken hmarked).graph op

/-- What a tick leaves is as current as the overrides it read. -/
theorem InService.ticked (hi : InService seen s) {rng : Nat → F} {env : TickEnv F}
    (hmarshals : ∀ d, env.marshals (.style d) = true)
    (hwindows : ∀ w, (env.timelineRaw w).WellFormed) {P : OverrideStore F → Prop}
    (hP : P s.overrides.shown) :
    Leaves (s.ticks.tick rng (s.tickEnv env)) (TickHub.Ticked P s.streamed s.ticks) :=
  TickHub.tick_ticked hi.streams ⟨hP, hmarshals, hwindows⟩ hi.graph.snapshot

theorem InService.tick (hi : InService seen s) (rng : Nat → F) {env : TickEnv F}
    (hmarshals : ∀ d, env.marshals (.style d) = true)
    (hwindows : ∀ w, (env.timelineRaw w).WellFormed) :
    Ends (s.ticks.tick rng (s.tickEnv env)) fun h' => InService seen { s with ticks := h' } := by
  obtain ⟨h', hh', hopen⟩ := TickHub.tick_open rng (s.tickEnv env) hi.channels
  have ht := hi.ticked hmarshals hwindows (P := fun _ => True) trivial h' hh'
  have hov := hi.ticked hmarshals hwindows (P := fun ov => ov = s.overrides.shown) rfl h' hh'
  have hgraph : h'.graphMgr.InOrder := hi.graph.of_eq ht.nodes ht.edges ht.index ht.names
  refine ⟨h', hh',
    { channels := hopen, graph := hgraph, streams := ht.streams, unseen := fun a ha => ?_
      drawn := hi.drawn.tick ht
      customized := fun htoken hmarked => (hi.customized htoken hmarked).tick hov }⟩
  show (h'.hub.conn a).needsFull = true
  rw [ht.others a fun hin => ha (hi.channels.mem_seen a hin)]
  exact hi.unseen a ha

/-- **One step of everything**; a client that registers has not done so before. -/
theorem InService.step (hi : InService seen s) (rng : Nat → F) (e : Event F) (he : e.InOrder)
    (hnew : ∀ id ∈ registrations [e], id ∉ seen) :
    Ends (s.step rng e) (InService (registrations [e] ++ seen)) := by
  cases e with
  | setOverride id o =>
    exact ends_ok { hi with customized := fun _ hmarked => absurd hmarked (Nat.succ_ne_zero _) }
  | deleteOverride id =>
    exact ends_ok { hi with customized := fun _ hmarked => absurd hmarked (Nat.succ_ne_zero _) }
  | markResyncAll =>
    unfold LiveHub.step
    dsimp only
    split
    · exact ends_pure hi
    · exact ends_pure { hi with customized := fun htoken _ => absurd htoken Bool.noConfusion }
  | hub e =>
    cases e with
    | register id => exact ends_ok (hi.register (hnew id (List.mem_singleton.mpr rfl)))
    | control id msg => exact ends_ok (hi.control msg)
    | drain id n => exact ends_ok (hi.drain n)
    | graph op => exact ends_ok (hi.graphOp he)
    | unregister id =>
      obtain ⟨hub, hhub, hnext⟩ := hi.unregister id
      refine ⟨_, ?_, hnext⟩
      unfold LiveHub.step TickHub.step
      dsimp only
      rw [hhub]
      rfl
    | resyncAll =>
      unfold LiveHub.step
      dsimp only
      split
      · exact ends_ok hi.resyncAll
      · exact ends_pure hi
    | tick env => exact (hi.tick rng he.1 he.2).bind fun h' h => ends_pure h

theorem inService_start (cfg : Nat → ViewConfig) (rng : Nat → F) (overrides : OverrideTable F) :
    InService [] (start cfg rng overrides) where
  channels := ⟨fun _ h => absurd h (AList.notMem_empty _), fun _ h => absurd h (AList.notMem_empty _),
    fun _ h => absurd h Bool.false_ne_true⟩
  graph := inOrder_init
  streams _ _ := ⟨fun _ => Option.Rel.none, fun _ => Option.Rel.none⟩
  unseen _ _ := rfl
  drawn _ _ h := absurd h (AList.notMem_empty _)
  customized _ _ _ _ h := absurd h (AList.notMem_empty _)

omit [FloatMath F] [RuneCase] in
theorem registrations_cons (e : Event F) (l : List (Event F)) :
    registrations (e :: l) = registrations [e] ++ registrations l :=
  List.filterMap_append (l := [e])

/-- The invariant along a run, from wherever it holds. -/
theorem InService.run (rng : Nat → F) : ∀ (l : List (Event F)) {seen : List Nat} {s : LiveHub F},
    InService seen s → (∀ e ∈ l, e.InOrder) → (registrations l).Nodup →
    (∀ id ∈ registrations l, id ∉ seen) →
    Ends (l.foldlM (LiveHub.step rng) s) fun s' =>
      ∃ seen', InService seen' s' ∧ ∀ id, id ∈ seen' ↔ id ∈ registrations l ∨ id ∈ seen
  | [], seen, s, hi, _, _, _ => ends_pure ⟨seen, hi, fun id => by simp [registrations]⟩
  | e :: l, seen, s, hi, hok, hnd, hnew => by
      rw [registrations_cons] at hnd hnew
      obtain ⟨s', hstep, hi'⟩ := hi.step rng e (hok e List.mem_cons_self)
        fun id hid => hnew id (List.mem_append_left _ hid)
      rw [List.foldlM_cons, hstep, ok_bind]
      have hfresh : ∀ id ∈ registrations l, id ∉ registrations [e] ++ seen := by
        intro id hid hmem
        rcases List.mem_append.mp hmem with hmem | hmem
        · exact (List.nodup_append.mp hnd).2.2 id hmem id hid rfl
        · exact hnew id (List.mem_append_right _ hid) hmem
      obtain ⟨s'', hrun, seen', hi'', hseen⟩ := InService.run rng l hi'
        (fun e he => hok e (List.mem_cons_of_mem _ he)) (List.nodup_append.mp hnd).2.1 hfresh
      refine ⟨s'', hrun, seen', hi'', fun id => ?_⟩
      rw [hseen, registrations_cons e l]
      simp only [List.mem_append]
      tauto

/-! ## Streams -/

/-- The messages sent and queued add up to a view of the graph under the client's key. -/
def Carries (P : OverrideStore F → Prop) (s : LiveHub F) (id : Nat) : Prop :=
  ∃ view, BuiltFor P s.ticks.graphMgr.snapshotRaw (viewConfigKey (s.ticks.hub.conn id).cfg) view
    ∧ Replicates ((s.ticks.hub.chan id).total (s.streamed id)) view

theorem InService.carries (hi : InService seen s) {P : OverrideStore F → Prop}
    (hin : id ∈ s.ticks.hub.clients)
    (hup : TickHub.UpToDate P s.ticks.graphMgr.snapshotRaw (s.ticks.hub.conn id)) : Carries P s id := by
  obtain ⟨view, hbuilt, hn, he⟩ := hup
  exact ⟨view, hbuilt, (hi.streams id (hi.channels.mem_open id hin)).replicates hn he⟩

variable (cfg : Nat → ViewConfig) (rng : Nat → F) (overrides : OverrideTable F)

theorem run_inService {l : List (Event F)} (hok : ∀ e ∈ l, e.InOrder)
    (honce : (registrations l).Nodup) :
    Ends (run cfg rng overrides l) fun s => ∃ seen, InService seen s
      ∧ ∀ id, id ∈ seen ↔ id ∈ registrations l := by
  refine (InService.run rng l (inService_start cfg rng overrides) hok honce
    fun _ _ => List.not_mem_nil).imp ?_
  rintro s ⟨hrun, seen, hi, hseen⟩
  exact ⟨hrun, seen, hi, fun id => by rw [hseen]; simp⟩

/--
**Every stream is in step.** In every run, whatever the order of its events, nothing panics
and the messages of every connected client, those sent and those queued, add up to what the
hub diffs its next view against.
-/
theorem streams_inStep (l : List (Event F)) (hok : ∀ e ∈ l, e.InOrder)
    (honce : (registrations l).Nodup) :
    ∃ s, run cfg rng overrides l = .ok s ∧ ∀ id ∈ s.ticks.hub.clients,
      InStep (s.ticks.hub.conn id, (s.ticks.hub.chan id).total (s.streamed id)) := by
  obtain ⟨s, hrun, seen, hi, -⟩ := run_inService cfg rng overrides hok honce
  exact ⟨s, hrun, fun id hin => hi.streams id (hi.channels.mem_open id hin)⟩

end LiveHub

end Live

namespace LiveHub

/-- A tick with nothing from outside. -/
def bareTick (now : Int) : Event Int :=
  .hub (.tick { go := Runtime.stable, now := now, usedAt := fun _ => now })

/-- A client watches one host in a circle, and someone names the host. -/
def namedHost : List (Event Int) :=
  [.hub (.register 0), .hub (.control 0 (.setLayout "circular")),
    .hub (.graph (.addOrUpdateNode "10.0.0.5" "" 60 0)), bareTick 1000000000000,
    .setOverride "10.0.0.5" { label := "nas" }, .markResyncAll, .hub (.drain 0 1), .hub .resyncAll,
    bareTick 2000000000000]

theorem wellFormed_empty : RawSnapshot.WellFormed {} where
  nodes := List.nodup_nil
  words := nofun
  edges := List.nodup_nil
  canonical := nofun

theorem bareTick_inOrder (now : Int) : (bareTick now).InOrder :=
  ⟨fun _ => rfl, fun _ => wellFormed_empty⟩

theorem namedHost_inOrder : ∀ e ∈ namedHost, e.InOrder := by
  intro e he
  simp only [namedHost, List.mem_cons, List.not_mem_nil, or_false] at he
  rcases he with rfl | rfl | rfl | rfl | rfl | rfl | rfl | rfl | rfl
  · trivial
  · trivial
  · exact ⟨by decide, by decide⟩
  · exact bareTick_inOrder _
  · trivial
  · trivial
  · trivial
  · trivial
  · exact bareTick_inOrder _

theorem streams_inStep_namedHost :
    ∃ s, run (fun _ => {}) (fun _ => 0) ∅ namedHost = .ok s ∧ ∀ id ∈ s.ticks.hub.clients,
      InStep (s.ticks.hub.conn id, (s.ticks.hub.chan id).total (s.streamed id)) :=
  streams_inStep (fun _ => {}) (fun _ => 0) ∅ namedHost namedHost_inOrder (by decide)

/-- The clients, what is still to be seen to, and what client 0 asks for. -/
def glance (s : LiveHub Int) : List Nat × (Bool × Bool × Nat) × Bool × Bool × Bool :=
  (s.ticks.hub.clients.keys, (s.ticks.graphMgr.dirty, s.resyncAll, s.unmarked),
    (s.ticks.hub.conn 0).needsFull, (s.ticks.hub.conn 0).cfg.raw,
    (s.ticks.hub.conn 0).timeline.isSome)

section Lag

variable [FloatMath F] [RuneCase] {seen : List Nat} {s : LiveHub F} {id : Nat}
  (cfg : Nat → ViewConfig) {rng : Nat → F} (overrides : OverrideTable F)

/-- The stream of whoever asks for nothing carries the graph, with the overrides of some time. -/
def Synced (s : LiveHub F) : Prop :=
  ∀ id ∈ s.ticks.hub.clients, (s.ticks.hub.conn id).needsFull = false →
    (s.ticks.hub.conn id).Live → Carries (fun _ => True) s id

variable (rng)

end Lag

end LiveHub

end Etherchimp
