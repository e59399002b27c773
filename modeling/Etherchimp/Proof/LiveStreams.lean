import Etherchimp.Proof.GraphWords
import Etherchimp.Proof.Hub
import Etherchimp.Proof.RawIdle
import Etherchimp.Server.Live

/-!
# Every stream keeps in step

What the hub diffs the next view against is what the messages of a client add up to, those
sent and those on its channel. `InStep` says so of one client, and it holds of every client
whose channel is open: a turn of the client in a tick queues exactly the chunks of its
delta, or closes the channel; the pump only sends what is on the channel; and nothing else
touches either.

A turn reaches the channel of no other client. `Turn` is that frame together with what
the turn queues, and each function of the turn has it.
-/

namespace Etherchimp

open Panic

variable {F : Type}

/-! ## What a turn changes -/

/-- The client diffs against the same view, under the same settings. -/
structure Client.SameStyle (c c' : Client F) : Prop where
  cfg : c'.cfg = c.cfg
  timeline : c'.timeline = c.timeline
  needsFull : c'.needsFull = c.needsFull
  lastNodes : c'.lastNodes = c.lastNodes
  lastEdges : c'.lastEdges = c.lastEdges

theorem Client.SameStyle.refl (c : Client F) : c.SameStyle c := ⟨rfl, rfl, rfl, rfl, rfl⟩

theorem Client.SameStyle.trans {a b c : Client F} (h : a.SameStyle b) (h' : b.SameStyle c) :
    a.SameStyle c :=
  ⟨h'.cfg.trans h.cfg, h'.timeline.trans h.timeline, h'.needsFull.trans h.needsFull,
    h'.lastNodes.trans h.lastNodes, h'.lastEdges.trans h.lastEdges⟩

/-- The style deltas among some messages. -/
def styleDeltas (msgs : List (OutMsg F)) : List (ViewDelta F) :=
  msgs.filterMap fun | .style d => some d | _ => none

theorem foldl_add (msgs : List (OutMsg F)) (m : ViewMirror F) :
    msgs.foldl ViewMirror.add m = (styleDeltas msgs).foldl ViewMirror.receive m := by
  induction msgs generalizing m with
  | nil => rfl
  | cons msg msgs ih => cases msg <;> exact ih _

namespace Hub

/-- Only one client's channel changes: it is closed, or some deltas are queued on it. -/
structure Turn (id : Nat) (deltas : List (ViewDelta F)) (h h' : Hub F) : Prop where
  conns : ∀ a, a ≠ id → h'.conn a = h.conn a
  chans : ∀ a, a ≠ id → h'.chan a = h.chan a
  clients : ∀ a, a ∈ h'.clients → a ∈ h.clients
  style : (h.conn id).SameStyle (h'.conn id)
  queued : (h'.chan id).closed = false →
    (h.chan id).closed = false
      ∧ ∀ m, (h'.chan id).total m = deltas.foldl ViewMirror.receive ((h.chan id).total m)

theorem Turn.refl (id : Nat) (h : Hub F) : Turn id [] h h where
  conns _ _ := rfl
  chans _ _ := rfl
  clients _ ha := ha
  style := Client.SameStyle.refl _
  queued hopen := ⟨hopen, fun _ => rfl⟩

theorem Turn.trans {id : Nat} {ds ds' : List (ViewDelta F)} {a b c : Hub F} (h : Turn id ds a b)
    (h' : Turn id ds' b c) : Turn id (ds ++ ds') a c where
  conns x hx := (h'.conns x hx).trans (h.conns x hx)
  chans x hx := (h'.chans x hx).trans (h.chans x hx)
  clients x hx := h.clients x (h'.clients x hx)
  style := h.style.trans h'.style
  queued hopen := by
    obtain ⟨hb, hq'⟩ := h'.queued hopen
    obtain ⟨ha, hq⟩ := h.queued hb
    exact ⟨ha, fun m => by rw [hq', hq, List.foldl_append]⟩

/-- A change of the client's record that keeps what it is diffed against. -/
theorem turn_setConn {id : Nat} {h : Hub F} {c : Client F} (hc : (h.conn id).SameStyle c) :
    Turn id [] h (h.setConn id c) where
  conns a ha := Function.update_of_ne ha _ _
  chans _ _ := rfl
  clients _ ha := ha
  style := by
    show (h.conn id).SameStyle (Function.update h.conn id c id)
    rw [Function.update_self]
    exact hc
  queued hopen := ⟨hopen, fun _ => rfl⟩

variable {h : Hub F} {id : Nat}

/-! ## Sends -/

/-- A send that succeeds queues its message; one that does not closes the channel. -/
structure Sent (id : Nat) (deltas : List (ViewDelta F)) (h : Hub F) (r : Bool × Hub F) : Prop where
  /-- A channel that stays open got everything. -/
  all : (r.2.chan id).closed = false → r.1 = true
  turn : Turn id deltas h r.2

theorem trySend_sent (h : Hub F) (id : Nat) (m : OutMsg F) :
    Leaves (h.trySend id m) (Sent id (styleDeltas [m]) h) := by
  unfold trySend SendChan.offer SendChan.close
  by_cases hclosed : (h.chan id).closed = true
  · simp only [hclosed, if_true]
    exact nofun
  · rw [if_neg hclosed]
    by_cases hroom : (h.chan id).queue.length < sendCap
    · rw [if_pos hroom, ok_bind]
      refine leaves_pure ⟨fun _ => rfl, fun _ _ => rfl, fun a ha => Function.update_of_ne ha _ _,
        fun _ ha => ha, Client.SameStyle.refl _, fun _ => ⟨Bool.eq_false_iff.mpr hclosed, fun p => ?_⟩⟩
      simp only [Hub.setChan, Function.update_self, SendChan.total, List.foldl_append]
      rw [← foldl_add]
    · rw [if_neg hroom, ok_bind, if_neg hclosed]
      have hshut : ∀ q : Hub F, q.chan id = { h.chan id with closed := true } →
          ¬ (q.chan id).closed = false := fun q hq hopen => by
        rw [hq] at hopen
        exact Bool.noConfusion hopen
      refine leaves_pure ⟨fun hopen => absurd hopen (hshut _ (Function.update_self ..)),
        fun _ _ => rfl, fun a ha => Function.update_of_ne ha _ _,
        fun _ ha => (AList.mem_erase.mp ha).2, Client.SameStyle.refl _,
        fun hopen => absurd hopen (hshut _ (Function.update_self ..))⟩

theorem sendEach_sent {marshals : OutMsg F → Bool} {msgs : List (OutMsg F)} (h : Hub F)
    (hm : ∀ d, OutMsg.style d ∈ msgs → marshals (.style d) = true) :
    Leaves (h.sendEach marshals id msgs) (Sent id (styleDeltas msgs) h) := by
  induction msgs generalizing h with
  | nil => exact leaves_pure ⟨fun _ => rfl, Turn.refl id h⟩
  | cons m ms ih =>
      have hms : ∀ d, OutMsg.style d ∈ ms → marshals (.style d) = true := fun d hd =>
        hm d (List.mem_cons_of_mem _ hd)
      have hsplit : styleDeltas (m :: ms) = styleDeltas [m] ++ styleDeltas ms :=
        List.filterMap_append (l := [m])
      rw [hsplit]
      unfold sendEach
      split
      · refine (trySend_sent h id m).bind fun r hr => ?_
        obtain ⟨sent, h'⟩ := r
        dsimp only
        cases sent with
        | true =>
          rw [if_pos rfl]
          exact fun r hr' => ⟨(ih h' hms r hr').all, hr.turn.trans (ih h' hms r hr').turn⟩
        | false =>
          rw [if_neg Bool.false_ne_true]
          have hshut : ¬ (h'.chan id).closed = false := fun hopen =>
            Bool.false_ne_true (hr.all hopen)
          exact leaves_pure ⟨fun hopen => absurd hopen hshut, hr.turn.conns, hr.turn.chans,
            hr.turn.clients, hr.turn.style, fun hopen => absurd hopen hshut⟩
      · -- a message that cannot be written is no style delta
        rename_i hnot
        have hnone : styleDeltas [m] = [] := by
          cases m with
          | style d => exact absurd (hm d List.mem_cons_self) hnot
          | positions | counts | rawMeta | rawFrame => rfl
        rw [hnone, List.nil_append]
        exact ih h hms

/-- A closed channel is all a turn that stops early has to show. -/
theorem Turn.closed {deltas : List (ViewDelta F)} {r : Bool × Hub F} (hr : Sent id deltas h r)
    (hfailed : r.1 = false) (ds : List (ViewDelta F)) : Turn id ds h r.2 where
  conns := hr.turn.conns
  chans := hr.turn.chans
  clients := hr.turn.clients
  style := hr.turn.style
  queued hopen := by
    rw [hr.all hopen] at hfailed
    cases hfailed

/-! ## The turn of one client -/

theorem sendRawTopology_turn (inp : TickInput F) (h : Hub F) (id : Nat) (force : Bool) :
    Leaves (sendRawTopology inp h id force) (Turn id [] h) := by
  unfold sendRawTopology
  dsimp only
  split
  · exact leaves_pure (Turn.refl id h)
  · have hconn : Turn id [] h (h.setConn id { h.conn id with lastRawAt := inp.now }) :=
      turn_setConn ⟨rfl, rfl, rfl, rfl, rfl⟩
    refine (sendEach_sent _ fun d hd => by cases List.mem_singleton.mp hd).bind fun (sent, h') hr => ?_
    dsimp only
    split
    · exact (trySend_sent h' id .rawFrame).bind fun r hr' =>
        leaves_pure (hconn.trans (hr.turn.trans hr'.turn))
    · exact leaves_pure (hconn.trans hr.turn)

section View

variable [Float64 F]

theorem buildPosFrame_sameStyle (c : Client F) (view : ViewSnapshot F) (full : Bool) :
    c.SameStyle (c.buildPosFrame view full).2 := by
  unfold Client.buildPosFrame
  dsimp only
  split
  · exact ⟨rfl, rfl, rfl, rfl, rfl⟩
  · split
    · exact ⟨rfl, rfl, rfl, rfl, rfl⟩
    · split <;> exact ⟨rfl, rfl, rfl, rfl, rfl⟩

omit [Float64 F] in
theorem buildCountsFrame_sameStyle (c : Client F) (view : ViewSnapshot F)
    (protoStats : KeyedMap String Nat) (full : Bool) (now : Int) :
    c.SameStyle (c.buildCountsFrame view protoStats full now).2 := by
  unfold Client.buildCountsFrame
  dsimp only
  split
  · exact ⟨rfl, rfl, rfl, rfl, rfl⟩
  · split
    · exact ⟨rfl, rfl, rfl, rfl, rfl⟩
    · split <;> exact ⟨rfl, rfl, rfl, rfl, rfl⟩

omit [Float64 F] in
theorem sendCounts_turn (inp : TickInput F) (h : Hub F) (id : Nat) (view : ViewSnapshot F)
    (full : Bool) : Leaves (sendView.sendCounts inp id full h view) (Turn id [] h) := by
  have hsame := buildCountsFrame_sameStyle (h.conn id) view inp.protoStats full inp.now
  unfold sendView.sendCounts
  split
  · rename_i frame c hframe
    rw [hframe] at hsame
    refine (sendEach_sent _ fun d hd => by cases List.mem_singleton.mp hd).bind fun r hr => ?_
    exact leaves_pure ((turn_setConn hsame).trans hr.turn)
  · rename_i c hframe
    rw [hframe] at hsame
    exact leaves_pure (turn_setConn hsame)

/-- What one view queues for a client: the chunks of its delta. -/
theorem sendView_turn (inp : TickInput F) (h : Hub F) (id : Nat) (flows : List TrafficFlow)
    (full : Bool) (hm : ∀ d, inp.marshals (.style d) = true) :
    Leaves (sendView inp h id flows full)
      (Turn id (styleDeltas (styleMsgs inp full ((h.conn id).buildDelta (inp.view id) flows full).1))
        (h.setConn id ((h.conn id).buildDelta (inp.view id) flows full).2)) := by
  unfold sendView
  dsimp only
  refine (sendEach_sent _ fun d _ => hm d).bind fun (sent, h') hr => ?_
  dsimp only
  cases sent with
  | false =>
    rw [if_pos (by rfl)]
    exact leaves_pure (Turn.closed hr rfl _)
  | true =>
    rw [if_neg (by decide)]
    have hsame := buildPosFrame_sameStyle (h'.conn id) (inp.view id) full
    -- what follows the style deltas queues none
    have hrest : ∀ {q : Hub F}, Turn id [] h' q → Turn id _ _ q := fun hq => by
      have hq := hr.turn.trans hq
      rwa [List.append_nil] at hq
    split
    · rename_i c hframe
      rw [hframe] at hsame
      exact leaves_pure (hrest (turn_setConn hsame))
    · rename_i frame c hframe
      rw [hframe] at hsame
      refine (trySend_sent _ id (.positions frame)).bind fun (sent', h'') hr' => ?_
      dsimp only
      split
      · exact fun q hq => hrest ((turn_setConn hsame).trans
          (hr'.turn.trans (sendCounts_turn inp h'' id _ full q hq)))
      · exact leaves_pure (hrest ((turn_setConn hsame).trans hr'.turn))
    · rename_i c hframe
      rw [hframe] at hsame
      exact fun q hq => hrest ((turn_setConn hsame).trans (sendCounts_turn inp _ id _ full q hq))

end View

end Hub

/-! ## The chunks of a delta -/

/-- What a mirror reads of a delta. -/
def ViewDelta.core (d : ViewDelta F) :
    (List (ViewNode F) × List String) × List (ViewEdge F) × List String :=
  ((d.nodes, d.removedNodes), d.edges, d.removedEdges)

theorem receive_congr {msgs msgs' : List (ViewDelta F)}
    (h : msgs.map ViewDelta.core = msgs'.map ViewDelta.core) (m : ViewMirror F) :
    msgs.foldl ViewMirror.receive m = msgs'.foldl ViewMirror.receive m := by
  have hcore : ∀ msgs : List (ViewDelta F), msgs.foldl ViewMirror.receive m
      = (msgs.map ViewDelta.core).foldl (fun m d =>
          { nodes := Delta.receive ViewNode.id id m.nodes d.1
            edges := Delta.receive ViewEdge.id id m.edges d.2 }) m := fun msgs => by
    rw [List.foldl_map]
    rfl
  rw [hcore, hcore, h]

/-- The protocol table rides along and changes no chunk. -/
theorem splitDelta_protocolStats (d : ViewDelta F) (stats : Option (KeyedMap String Nat)) :
    (splitDelta { d with protocolStats := stats }).map ViewDelta.core
      = (splitDelta d).map ViewDelta.core := by
  unfold splitDelta
  dsimp only
  split
  · rfl
  · have hlast : ∀ (l : List (ViewDelta F)) (i : Nat),
        (l.modify i fun last => { last with fullDone := true }).map ViewDelta.core
          = l.map ViewDelta.core := by
      intro l i
      refine map_modify_same ?_ l i
      exact fun _ => rfl
    rw [hlast, hlast, map_modify (h := fun x => ((x.1.1, d.removedNodes), x.2.1, d.removedEdges)),
      map_modify (h := fun x => ((x.1.1, d.removedNodes), x.2.1, d.removedEdges))]
    · exact fun _ => rfl
    · exact fun _ => rfl

theorem styleDeltas_style (ds : List (ViewDelta F)) : styleDeltas (ds.map .style) = ds := by
  induction ds with
  | nil => rfl
  | cons d ds ih => exact congrArg (d :: ·) ih

/-- The style messages of a delta do to a mirror what its chunks do. -/
theorem receive_styleMsgs (inp : TickInput F) (full : Bool) (delta : Option (ViewDelta F))
    (m : ViewMirror F) :
    (styleDeltas (Hub.styleMsgs inp full delta)).foldl ViewMirror.receive m
      = match delta with
        | none => m
        | some d => (splitDelta d).foldl ViewMirror.receive m := by
  cases delta with
  | none => rfl
  | some d =>
    unfold Hub.styleMsgs
    dsimp only
    rw [styleDeltas_style]
    split
    · exact receive_congr (splitDelta_protocolStats d _) m
    · rfl

/-! ## The turn as a tick of the client -/

namespace Hub

variable [Float64 F]

/-- The client has had its turn: its full flag is consumed, and it was sent what it asked for. -/
structure Served (inp : TickInput F) (id : Nat) (h h' : Hub F) : Prop where
  conns : ∀ a, a ≠ id → h'.conn a = h.conn a
  chans : ∀ a, a ≠ id → h'.chan a = h.chan a
  clients : ∀ a, a ∈ h'.clients → a ∈ h.clients
  cfg : (h'.conn id).cfg = (h.conn id).cfg
  timeline : (h'.conn id).timeline.isSome = (h.conn id).timeline.isSome
  needsFull : (h'.conn id).needsFull = false
  still : (h'.chan id).closed = false → (h.chan id).closed = false
  /-- A raw client's view rests. -/
  rests : (h.conn id).cfg.raw = true →
    (h'.conn id).lastNodes = (h.conn id).lastNodes ∧ (h'.conn id).lastEdges = (h.conn id).lastEdges
      ∧ ((h'.chan id).closed = false →
          ∀ m, (h'.chan id).total m = (h.chan id).total m)
  /-- The others have a view built for them. -/
  built : (h.conn id).cfg.raw = false → ∃ flows : List TrafficFlow,
    let t : Tick F := ⟨inp.view id, flows, (h.conn id).needsFull⟩
    (h'.conn id).lastNodes = ((h.conn id).diffNodes t.full t.view).last
      ∧ (h'.conn id).lastEdges = ((h.conn id).diffEdges t.full t.view).last
      ∧ ((h'.chan id).closed = false → ∀ m, (h'.chan id).total m
          = (deltaTick (h.conn id, (h.chan id).total m) t).2)

/-- Consuming the full flag and marking a position changes nothing a delta is made of. -/
theorem buildDelta_consumed (c : Client F) (timeline : Option TimelineState)
    (view : ViewSnapshot F) (flows : List TrafficFlow) (full : Bool) :
    (({ c with needsFull := false, timeline := timeline } : Client F).buildDelta view flows full).1
      = (c.buildDelta view flows full).1 := by
  unfold Client.buildDelta
  dsimp only
  have hn : ({ c with needsFull := false, timeline := timeline } : Client F).diffNodes full view
      = c.diffNodes full view := rfl
  have he : ({ c with needsFull := false, timeline := timeline } : Client F).diffEdges full view
      = c.diffEdges full view := rfl
  rw [hn, he]
  split <;> rfl

/-- The turn of a client with a view, from its record on. -/
theorem sendView_served (inp : TickInput F) (h : Hub F) (id : Nat) (flows : List TrafficFlow)
    (timeline : Option TimelineState) (htl : timeline.isSome = (h.conn id).timeline.isSome)
    (hraw : (h.conn id).cfg.raw = false) (hm : ∀ d, inp.marshals (.style d) = true) :
    Leaves (sendView inp (h.setConn id { h.conn id with needsFull := false, timeline := timeline })
      id flows (h.conn id).needsFull) (Served inp id h) := by
  intro h' hh
  have hturn := sendView_turn inp _ id flows (h.conn id).needsFull hm h' hh
  have hself : (h.setConn id { h.conn id with needsFull := false, timeline := timeline }).conn id
      = { h.conn id with needsFull := false, timeline := timeline } := Function.update_self ..
  rw [hself] at hturn
  obtain ⟨hspec, -⟩ := buildDelta_spec
    ({ h.conn id with needsFull := false, timeline := timeline } : Client F) (inp.view id) flows
    (h.conn id).needsFull
  have hstyle := hturn.style
  have hdouble : ∀ c c' : Client F, ((h.setConn id c).setConn id c').conn id = c' :=
    fun c c' => Function.update_self ..
  rw [hdouble, hspec] at hstyle
  refine
    { conns := fun a ha => ?_, chans := hturn.chans, clients := hturn.clients
      cfg := hstyle.cfg, timeline := ?_, needsFull := hstyle.needsFull
      still := fun hopen => (hturn.queued hopen).1
      rests := fun hr => absurd (hraw.symm.trans hr) Bool.false_ne_true
      built := fun _ => ⟨flows, hstyle.lastNodes, hstyle.lastEdges, fun hopen m => ?_⟩ }
  · refine (hturn.conns a ha).trans ?_
    exact (Function.update_of_ne ha _ _).trans (Function.update_of_ne ha _ _)
  · rw [hstyle.timeline]
    exact htl
  · rw [(hturn.queued hopen).2 m, receive_styleMsgs, buildDelta_consumed]
    rfl

theorem serve_served (inp : TickInput F) (h : Hub F) (id : Nat)
    (hm : ∀ d, inp.marshals (.style d) = true) : Leaves (serve inp h id) (Served inp id h) := by
  unfold serve Client.consumeNeedsFull Client.timelineParams Client.snapshotCfg
  dsimp only
  by_cases hraw : (h.conn id).cfg.raw = true
  · rw [if_pos hraw]
    have hrest : ∀ c : Client F, c.cfg = (h.conn id).cfg →
        c.timeline.isSome = (h.conn id).timeline.isSome → c.needsFull = false →
        c.lastNodes = (h.conn id).lastNodes → c.lastEdges = (h.conn id).lastEdges →
        Leaves (sendRawTopology inp (h.setConn id c) id (h.conn id).needsFull) (Served inp id h) := by
      intro c hcfg htl hneeds hln hle h' hh
      have hturn := sendRawTopology_turn inp _ id _ h' hh
      have hself : (h.setConn id c).conn id = c := Function.update_self ..
      have hstyle := hturn.style
      rw [hself] at hstyle
      exact
        { conns := fun a ha => (hturn.conns a ha).trans (Function.update_of_ne ha _ _)
          chans := hturn.chans, clients := hturn.clients, cfg := hstyle.cfg.trans hcfg
          timeline := by rw [hstyle.timeline, htl]
          needsFull := hstyle.needsFull.trans hneeds
          still := fun hopen => (hturn.queued hopen).1
          rests := fun _ => ⟨hstyle.lastNodes.trans hln, hstyle.lastEdges.trans hle,
            fun hopen => (hturn.queued hopen).2⟩
          built := fun hr => absurd (hraw.symm.trans hr) Bool.noConfusion }
    split
    · exact hrest _ rfl (by simp [Client.markTimelineBuilt]) rfl rfl rfl
    · exact hrest _ rfl rfl rfl rfl rfl
  · rw [if_neg hraw]
    have hraw : (h.conn id).cfg.raw = false := Bool.eq_false_iff.mpr hraw
    split
    · exact sendView_served inp h id [] _ (by rw [Option.isSome_map]) hraw hm
    · exact sendView_served inp h id inp.flows (h.conn id).timeline rfl hraw hm

end Hub

/-! ## Streams in step with a hub -/

section InStep

variable [Float64 F] {sofar : Nat → ViewMirror F}

/-- With what is queued, every stream that is still open is in step. -/
def StreamsInStep (sofar : Nat → ViewMirror F) (h : Hub F) : Prop :=
  ∀ id, (h.chan id).closed = false → InStep (h.conn id, (h.chan id).total (sofar id))

/-- Being in step is about what is diffed against and what the messages add up to. -/
theorem InStep.congr {c c' : Client F} {m m' : ViewMirror F} (hn : c'.lastNodes = c.lastNodes)
    (he : c'.lastEdges = c.lastEdges) (hm : m' = m) (h : InStep (c, m)) : InStep (c', m') where
  nodes := by
    show KeyedMap.Related _ m'.nodes c'.lastNodes
    rw [hm, hn]
    exact h.nodes
  edges := by
    show KeyedMap.Related _ m'.edges c'.lastEdges
    rw [hm, he]
    exact h.edges

/-- **One turn keeps the streams in step**, when the view built for it can be sent. -/
theorem StreamsInStep.served {inp : TickInput F} {id : Nat} {h h' : Hub F} (hp : StreamsInStep sofar h)
    (hview : (h.conn id).cfg.raw = false → (inp.view id).Distinct ∧ (inp.view id).Enclosed)
    (hs : Hub.Served inp id h h') : StreamsInStep sofar h' := by
  intro a hopen
  by_cases ha : a = id
  · subst ha
    have hin := hp a (hs.still hopen)
    by_cases hraw : (h.conn a).cfg.raw = true
    · obtain ⟨hn, he, hq⟩ := hs.rests hraw
      exact hin.congr hn he (hq hopen (sofar a))
    · have hraw := Bool.eq_false_iff.mpr hraw
      obtain ⟨flows, hn, he, hq⟩ := hs.built hraw
      obtain ⟨hdistinct, henclosed⟩ := hview hraw
      have htick := hin.tick (t := ⟨inp.view a, flows, (h.conn a).needsFull⟩)
        ⟨hdistinct, fun _ => henclosed⟩
      obtain ⟨hbn, hbe⟩ := buildDelta_last (h.conn a) (inp.view a) flows (h.conn a).needsFull
      exact htick.congr (hn.trans hbn.symm) (he.trans hbe.symm) (hq hopen (sofar a))
  · have hchan := hs.chans a ha
    have hconn := hs.conns a ha
    rw [hchan] at hopen ⊢
    rw [hconn]
    exact hp a hopen

omit [Float64 F] in
theorem applyControl_style (c : Client F) (msg : ControlMsg) :
    (c.applyControl msg).lastNodes = c.lastNodes ∧ (c.applyControl msg).lastEdges = c.lastEdges := by
  cases msg with
  | setFilters | setAggregation | resync | malformed => exact ⟨rfl, rfl⟩
  | setLayout mode =>
    unfold Client.applyControl
    dsimp only
    split <;> exact ⟨rfl, rfl⟩
  | setViewMode mode =>
    unfold Client.applyControl
    dsimp only
    split <;> exact ⟨rfl, rfl⟩
  | setTimeline captureID t window =>
    unfold Client.applyControl
    dsimp only
    split
    · split <;> exact ⟨rfl, rfl⟩
    · split
      · split <;> exact ⟨rfl, rfl⟩
      · exact ⟨rfl, rfl⟩

end InStep

/-! ## The views of a tick -/

variable [FloatMath F] [RuneCase]

/-- The client sees the live graph in a styled view. -/
structure Client.Live (c : Client F) : Prop where
  styled : c.cfg.raw = false
  current : c.timeline = none

/-- A view of this graph under a configuration of this key, built with such overrides. -/
def BuiltFor (P : OverrideStore F → Prop) (raw : RawSnapshot) (key : String)
    (view : ViewSnapshot F) : Prop :=
  ∃ (go : Runtime) (cfg : ViewConfig) (input : ViewInput F),
    viewConfigKey cfg = key ∧ P input.overrides ∧ view = (buildView go raw cfg input).1

namespace TickHub

/-- The views built so far in a tick are views of the graph, each under its key. -/
def Bucketed (P : OverrideStore F → Prop) (s : Serving F) : Prop :=
  ∀ key view, s.2.lookup key = some view → BuiltFor P s.1.graphMgr.snapshotRaw key view

/-- What `viewFor` returns, and that it changes neither the clients nor the graph. -/
structure ViewOf (P : OverrideStore F → Prop) (env : TickEnv F) (s : Serving F) (id : Nat)
    (r : ViewSnapshot F × Serving F) : Prop where
  hub : r.2.1.hub = s.1.hub
  graphMgr : r.2.1.graphMgr = s.1.graphMgr
  bucketed : Bucketed P r.2
  live : (s.1.hub.conn id).cfg.raw = false → (s.1.hub.conn id).timeline = none →
    BuiltFor P s.1.graphMgr.snapshotRaw (viewConfigKey (s.1.hub.conn id).cfg) r.1
  scrubbed : (s.1.hub.conn id).cfg.raw = false → ∀ tl, (s.1.hub.conn id).timeline = some tl →
    ∃ go cfg input, r.1 = (buildView go (env.timelineRaw tl.position) cfg input).1

variable {P : OverrideStore F → Prop}

theorem viewFor_viewOf (rng : Nat → F) {env : TickEnv F} (henv : P env.overrides)
    (vlanByIP : KeyedMap String UInt16) {s : Serving F} (hb : Bucketed P s) (id : Nat) :
    ViewOf P env s id (viewFor rng env vlanByIP s id) := by
  obtain ⟨h, bucketViews⟩ := s
  unfold viewFor Client.snapshotCfg Client.timelineParams
  dsimp only
  by_cases hraw : (h.hub.conn id).cfg.raw = true
  · rw [if_pos hraw]
    exact
      { hub := rfl, graphMgr := rfl, bucketed := hb
        live := fun hr => absurd (hraw.symm.trans hr) Bool.noConfusion
        scrubbed := fun hr => absurd (hraw.symm.trans hr) Bool.noConfusion }
  · rw [if_neg hraw]
    split
    · rename_i tl htl
      refine
        { hub := rfl, graphMgr := rfl, bucketed := hb
          live := fun _ hnone => absurd (htl.symm.trans hnone) nofun
          scrubbed := fun _ tl' htl' => ?_ }
      obtain rfl : tl = tl' := Option.some.inj (htl.symm.trans htl')
      exact ⟨_, _, _, rfl⟩
    · rename_i hnone
      have hnot : ∀ tl, ¬ (h.hub.conn id).timeline = some tl := fun tl htl =>
        absurd (hnone.symm.trans htl) nofun
      split
      · rename_i view hview
        exact
          { hub := rfl, graphMgr := rfl, bucketed := hb
            live := fun _ _ => hb _ view hview
            scrubbed := fun _ tl htl => absurd htl (hnot tl) }
      · have hshared : (sharedEngineFor rng env h (viewConfigKey (h.hub.conn id).cfg)).2.hub = h.hub
            ∧ (sharedEngineFor rng env h (viewConfigKey (h.hub.conn id).cfg)).2.graphMgr
              = h.graphMgr := by
          unfold sharedEngineFor
          split <;> exact ⟨rfl, rfl⟩
        have hbuilt : BuiltFor P h.graphMgr.snapshotRaw (viewConfigKey (h.hub.conn id).cfg)
            (build (sharedEngineFor rng env h (viewConfigKey (h.hub.conn id).cfg)).2
              (h.hub.conn id).cfg
              { go := env.go
                engine := (sharedEngineFor rng env h (viewConfigKey (h.hub.conn id).cfg)).1
                raw := (sharedEngineFor rng env h
                  (viewConfigKey (h.hub.conn id).cfg)).2.graphMgr.snapshotRaw
                overrides := env.overrides, pins := env.pins, vlanByIP := vlanByIP }).1 := by
          refine ⟨env.go, (h.hub.conn id).cfg, _, rfl, ?_, by rw [← hshared.2]; rfl⟩
          exact henv
        refine
          { hub := hshared.1, graphMgr := hshared.2, bucketed := fun key view hl => ?_
            live := fun _ _ => hbuilt
            scrubbed := fun _ tl htl => absurd htl (hnot tl) }
        have hgraph : ∀ h' : TickHub F, h'.graphMgr = h.graphMgr →
            h'.graphMgr.snapshotRaw = h.graphMgr.snapshotRaw := fun h' he => by rw [he]
        show BuiltFor P ((sharedEngineFor rng env h
          (viewConfigKey (h.hub.conn id).cfg)).2.graphMgr.snapshotRaw) key view
        rw [hgraph _ hshared.2]
        have hl : (bucketViews.insert (viewConfigKey (h.hub.conn id).cfg) _).lookup key
            = some view := hl
        rw [KeyedMap.lookup_insert_eq] at hl
        split at hl
        · rename_i hk
          cases hl
          exact hk ▸ hbuilt
        · exact hb key view hl

/-! ## The turns of a tick -/

/-- What the client was last sent is a view of this graph, under its own key. -/
def UpToDate (P : OverrideStore F → Prop) (raw : RawSnapshot) (c : Client F) : Prop :=
  ∃ view, BuiltFor P raw (viewConfigKey c.cfg) view
    ∧ Delta.Holds ViewNode.id view.nodes c.lastNodes ∧ Delta.Holds ViewEdge.id view.edges c.lastEdges

/-- A tick in progress: it has been through the clients in `done`. -/
structure Round (P : OverrideStore F → Prop) (sofar : Nat → ViewMirror F) (h₀ : TickHub F)
    (done : List Nat) (s : Serving F) : Prop where
  graphMgr : s.1.graphMgr = h₀.graphMgr
  bucketed : Bucketed P s
  streams : StreamsInStep sofar s.1.hub
  clients : ∀ a ∈ s.1.hub.clients, a ∈ h₀.hub.clients
  others : ∀ a, a ∉ h₀.hub.clients → s.1.hub.conn a = h₀.hub.conn a
  served : ∀ a ∈ done, a ∈ s.1.hub.clients → (s.1.hub.conn a).Live →
    UpToDate P h₀.graphMgr.snapshotRaw (s.1.hub.conn a)

/-- What a tick reads from outside is in order. -/
structure TickEnvOK (P : OverrideStore F → Prop) (env : TickEnv F) : Prop where
  overrides : P env.overrides
  marshals : ∀ d, env.marshals (.style d) = true
  windows : ∀ w, (env.timelineRaw w).WellFormed

variable {sofar : Nat → ViewMirror F} {h₀ : TickHub F} {env : TickEnv F}

/-- A served live client is up to date. -/
theorem served_upToDate {inp : TickInput F} {id : Nat} {h h' : Hub F} {raw : RawSnapshot}
    (hs : Hub.Served inp id h h') (hraw : raw.WellFormed) (hlive : (h.conn id).Live)
    (hbuilt : BuiltFor P raw (viewConfigKey (h.conn id).cfg) (inp.view id)) :
    UpToDate P raw (h'.conn id) := by
  obtain ⟨flows, hn, he, -⟩ := hs.built hlive.styled
  refine ⟨inp.view id, hs.cfg ▸ hbuilt, ?_, ?_⟩
  · obtain ⟨go, cfg, input, -, -, hview⟩ := hbuilt
    rw [hn]
    exact Delta.diff_last (hview ▸ (hraw.distinct go cfg input).nodes)
  · obtain ⟨go, cfg, input, -, -, hview⟩ := hbuilt
    rw [he]
    exact Delta.diff_last (hview ▸ (hraw.distinct go cfg input).edges)

/-- **One turn of a tick.** -/
theorem Round.serveClient (rng : Nat → F) (vlanByIP : KeyedMap String UInt16)
    (flows : List TrafficFlow) {done : List Nat} {s : Serving F} {id : Nat}
    (hr : Round P sofar h₀ done s) (henv : TickEnvOK P env)
    (hraw : h₀.graphMgr.snapshotRaw.WellFormed) :
    Leaves (serveClient rng env vlanByIP flows s id) (Round P sofar h₀ (done ++ [id])) := by
  unfold TickHub.serveClient
  split
  · rename_i hgone
    refine leaves_pure { hr with served := fun a ha hin => ?_ }
    rcases List.mem_append.mp ha with ha | ha
    · exact hr.served a ha hin
    · exact absurd (List.mem_singleton.mp ha ▸ hin) hgone
  · rename_i hin
    have hin := not_not.mp hin
    have hview := viewFor_viewOf rng henv.overrides vlanByIP hr.bucketed id
    generalize viewFor rng env vlanByIP s id = r at hview
    obtain ⟨view, h, bucketViews⟩ := r
    obtain ⟨hhub, hgraph, hbucketed, hlive, hscrubbed⟩ := hview
    dsimp only at hhub hgraph hlive hscrubbed ⊢
    rw [hr.graphMgr] at hlive
    refine Leaves.bind (Hub.serve_served (tickInput env h flows view) h.hub id henv.marshals)
      fun hub hs => leaves_pure ?_
    rw [hhub] at hs
    refine
      { graphMgr := hgraph.trans hr.graphMgr
        bucketed := hbucketed
        streams := hr.streams.served (fun hstyled => ?_) hs
        clients := fun a ha => hr.clients a (hs.clients a ha)
        others := fun a ha => ?_
        served := fun a ha hain halive => ?_ }
    · -- the view is one of the live graph, or of a stored window
      cases htl : (s.1.hub.conn id).timeline with
      | none =>
        obtain ⟨go, cfg, input, -, -, hv⟩ := hlive hstyled htl
        show view.Distinct ∧ view.Enclosed
        rw [hv]
        exact ⟨hraw.distinct go cfg input, hraw.enclosed go cfg input⟩
      | some tl =>
        obtain ⟨go, cfg, input, hv⟩ := hscrubbed hstyled tl htl
        show view.Distinct ∧ view.Enclosed
        rw [hv]
        exact ⟨(henv.windows _).distinct go cfg input, (henv.windows _).enclosed go cfg input⟩
    · have hne : a ≠ id := fun he => ha (hr.clients a (he ▸ hin))
      exact (hs.conns a hne).trans (hr.others a ha)
    · by_cases hae : a = id
      · subst hae
        have hbefore : (s.1.hub.conn a).Live :=
          ⟨hs.cfg ▸ halive.styled, Option.not_isSome_iff_eq_none.mp (by
            rw [← hs.timeline, show (hub.conn a).timeline = none from halive.current]
            exact Bool.false_ne_true)⟩
        exact served_upToDate hs hraw hbefore (hlive hbefore.styled hbefore.current)
      · have hconn : hub.conn a = s.1.hub.conn a := hs.conns a hae
        have halive : (hub.conn a).Live := halive
        rw [hconn] at halive
        show UpToDate P _ (hub.conn a)
        rw [hconn]
        refine hr.served a ?_ (hs.clients a hain) halive
        exact (List.mem_append.mp ha).resolve_right fun h => hae (List.mem_singleton.mp h)

/-! ## The tick -/

/-- Why a tick returned early: nobody there, nothing to do, or a rebuild that has to wait. -/
inductive Rested (h h' : TickHub F) : Prop
  | nobody (hnone : h.hub.clients.keys = [])
  | idle (hclean : h.graphMgr.dirty = false)
  | paced (hnext : h'.tickSeq = h.tickSeq + 1) (hwaits : h'.tickSeq % viewRebuildEveryLarge ≠ 0)

/-- What a tick leaves: the streams in step, and the live clients up to date when it built. -/
structure Ticked (P : OverrideStore F → Prop) (sofar : Nat → ViewMirror F) (h h' : TickHub F) :
    Prop where
  nodes : h'.graphMgr.nodes = h.graphMgr.nodes
  edges : h'.graphMgr.edges = h.graphMgr.edges
  index : h'.graphMgr.edgesByNode = h.graphMgr.edgesByNode
  names : h'.graphMgr.hostnameToNodeID = h.graphMgr.hostnameToNodeID
  streams : StreamsInStep sofar h'.hub
  clients : ∀ a ∈ h'.hub.clients, a ∈ h.hub.clients
  others : ∀ a, a ∉ h.hub.clients → h'.hub.conn a = h.hub.conn a
  /-- It returned early, or it went through all clients. -/
  served : (h'.hub = h.hub ∧ h'.graphMgr.dirty = h.graphMgr.dirty ∧ Rested h h')
    ∨ (h'.graphMgr.dirty = false ∧ ∀ a ∈ h'.hub.clients, (h'.hub.conn a).Live →
        UpToDate P h'.graphMgr.snapshotRaw (h'.hub.conn a))

theorem tick_ticked {rng : Nat → F} {h : TickHub F} (hp : StreamsInStep sofar h.hub)
    (henv : TickEnvOK P env) (hraw : h.graphMgr.snapshotRaw.WellFormed) :
    Leaves (h.tick rng env) (Ticked P sofar h) := by
  have hearly : ∀ h' : TickHub F, h'.hub = h.hub → h'.graphMgr = h.graphMgr → Rested h h' →
      Ticked P sofar h h' := fun h' hhub hgraph hrested =>
    { nodes := by rw [hgraph], edges := by rw [hgraph], index := by rw [hgraph]
      names := by rw [hgraph], streams := by rw [hhub]; exact hp
      clients := fun a ha => by rwa [hhub] at ha
      others := fun a _ => by rw [hhub]
      served := .inl ⟨hhub, by rw [hgraph], hrested⟩ }
  unfold TickHub.tick
  split
  · rename_i hnone
    exact leaves_pure (hearly h rfl rfl (.nobody hnone))
  · split
    · rename_i hidle
      unfold idles at hidle
      simp only [Bool.and_eq_true, Bool.not_eq_true'] at hidle
      exact leaves_pure (hearly h rfl rfl (.idle hidle.1.1.1))
    · dsimp only
      split
      · rename_i hpaced
        unfold paced at hpaced
        rw [Bool.and_eq_true] at hpaced
        exact leaves_pure (hearly _ rfl rfl (.paced rfl (bne_iff_ne.mp hpaced.2)))
      · -- the graph is clean and its flows are drained; nodes and edges are as they were
        generalize hh₀ : ({ h with
          tickSeq := h.tickSeq + 1
          graphMgr := { h.graphMgr with dirty := false, recentFlows := ∅ } } : TickHub F) = h₀
        have hsame : h₀.graphMgr.snapshotRaw = h.graphMgr.snapshotRaw := by
          rw [← hh₀]
          rfl
        have hclean : h₀.graphMgr.dirty = false := by rw [← hh₀]
        have hhub : h₀.hub = h.hub := by rw [← hh₀]
        have hstart : Round P sofar h₀ [] ((h₀, ∅) : Serving F) :=
          { graphMgr := rfl, bucketed := nofun, streams := by rw [hhub]; exact hp
            clients := fun _ ha => ha, others := fun _ _ => rfl, served := nofun }
        have hloop := Leaves.foldlM_visited (P := fun done => Round P sofar h₀ done)
          (fun done s id hs => hs.serveClient rng
            (if ({ h with tickSeq := h.tickSeq + 1 } : TickHub F).subnetActive then
              env.vlanByIP else ∅)
            (topKFlows (({ h.graphMgr with dirty := false }).drainFlows env.go).1
              maxFlowsPerTick) henv (by rw [hsame]; exact hraw))
          ((env.go.rangeOf h.hub.clients).map fun e => e.1) hstart
        rw [← hh₀] at hloop
        refine hloop.bind fun s hs => leaves_pure ?_
        rw [hh₀] at hs
        have hgraph : (s.1.pruneSharedEngines env.now).graphMgr = h₀.graphMgr := hs.graphMgr
        have hvisited : ∀ a ∈ h.hub.clients,
            a ∈ ([] : List Nat) ++ (env.go.rangeOf h.hub.clients).map fun e => e.1 := by
          intro a ha
          obtain ⟨x, hx⟩ := (KeyedMap.mem_keys_iff h.hub.clients a).mp (AList.mem_keys.mp ha)
          exact List.mem_map.mpr ⟨⟨a, x⟩, (env.go.mem_rangeOf).mpr hx, rfl⟩
        refine
          { nodes := by rw [hgraph, ← hh₀], edges := by rw [hgraph, ← hh₀]
            index := by rw [hgraph, ← hh₀], names := by rw [hgraph, ← hh₀]
            streams := hs.streams
            clients := fun a ha => hhub ▸ hs.clients a ha
            others := fun a ha => (hs.others a (by rw [hhub]; exact ha)).trans (by rw [hhub])
            served := .inr ⟨by rw [hgraph, hclean], fun a ha hlive => ?_⟩ }
        rw [hgraph]
        have hin : a ∈ h.hub.clients := hhub ▸ hs.clients a ha
        exact hs.served a (hvisited a hin) ha hlive

end TickHub

end Etherchimp
