import Etherchimp.Proof.Shown

/-!
# A full snapshot resynchronises any client

A browser that reconnects may show anything: items of the old session, a delta waiting
for its timer, half of a chunked snapshot. The first message of a full snapshot clears
the throttle, the chunks bypass it, and the last one removes what was not listed.
-/

namespace Etherchimp

variable {F : Type}

/-- A message arrives at the browser. -/
structure Arrival (F : Type) where
  look : Look F
  now : Int
  data : ViewDelta F

def Browser.receive (b : Browser F) (a : Arrival F) : Browser F :=
  b.throttledUpdateGraph a.look a.now a.data

/-- Nothing waits for a timer. -/
structure Browser.Quiet (b : Browser F) : Prop where
  pending : b.pendingUpdate = none
  scheduled : b.updateScheduled = false
  timer : b.updateTimer = none

/-- A full snapshot, or its first chunk, clears the throttle. -/
theorem receive_isFull (b : Browser F) {a : Arrival F} (h : a.data.isFull = true) :
    (b.receive a).Quiet ∧ (b.receive a).page.shown = b.page.shown.receive a.data := by
  have hr : b.receive a
      = { page := b.page.updateGraph a.look a.data
          pendingUpdate := none
          updateScheduled := false
          updateTimer := none
          lastUpdateTime := a.now } := by
    unfold Browser.receive Browser.throttledUpdateGraph
    rw [if_neg fun hc => hc.2 h, if_pos h]
  rw [hr]
  exact ⟨⟨rfl, rfl, rfl⟩, shown_updateGraph ..⟩

/-- A later chunk goes straight to the page. -/
theorem receive_isPartial (b : Browser F) {a : Arrival F} (hf : a.data.isFull = false)
    (hp : a.data.isPartial = true) :
    b.receive a = { b with page := b.page.updateGraph a.look a.data } := by
  unfold Browser.receive Browser.throttledUpdateGraph
  rw [if_pos ⟨hp, Bool.eq_false_iff.mp hf⟩]

/-- A run of chunks leaves the throttle alone. -/
theorem ChunkRun.browser {arrivals : List (Arrival F)} {q : List (ViewDelta F)} (h : ChunkRun q)
    (hq : arrivals.map Arrival.data = q) {b : Browser F} (hb : b.Quiet) :
    (arrivals.foldl Browser.receive b).Quiet
      ∧ (arrivals.foldl Browser.receive b).page.shown = q.foldl Shown.receive b.page.shown := by
  induction h generalizing arrivals b with
  | last hfull hpart =>
    obtain ⟨a, rfl, rfl⟩ := List.map_eq_singleton_iff.mp hq
    rw [List.foldl_cons, List.foldl_nil, receive_isPartial b hfull hpart]
    exact ⟨⟨hb.pending, hb.scheduled, hb.timer⟩, shown_updateGraph ..⟩
  | chunk hfull hpart _ _ _ _ ih =>
    obtain ⟨a, rest, rfl, rfl, hrest⟩ := List.map_eq_cons_iff.mp hq
    rw [List.foldl_cons, receive_isPartial b hfull hpart]
    obtain ⟨hquiet, hshown⟩ := ih hrest (b := { b with page := b.page.updateGraph a.look a.data })
      ⟨hb.pending, hb.scheduled, hb.timer⟩
    rw [hshown]
    exact ⟨hquiet, by rw [shown_updateGraph, List.foldl_cons]⟩

variable [Float64 F]

/--
**A completed full snapshot resynchronises any browser.** Whatever it shows and
whatever waits, the messages of a full build leave it with the ids of the view and
with nothing waiting, at any times and however it draws.
-/
theorem fullSnapshot_resyncs (c : Client F) (b : Browser F) (view : ViewSnapshot F)
    (flows : List TrafficFlow) (hd : view.Distinct) (hin : ∀ e ∈ view.edges, Within view.nodes e) :
    ∃ d, (c.buildDelta view flows true).1 = some d
      ∧ ∀ arrivals : List (Arrival F), arrivals.map Arrival.data = splitDelta d →
          (arrivals.foldl Browser.receive b).page.nodes.ids = {id | id ∈ view.nodes.map ViewNode.id}
            ∧ (arrivals.foldl Browser.receive b).page.edges.ids = {id | id ∈ view.edges.map ViewEdge.id}
            ∧ (arrivals.foldl Browser.receive b).Quiet := by
  obtain ⟨-, hmsg⟩ := buildDelta_spec c view flows true
  cases hb : (c.buildDelta view flows true).1 with
  | none =>
    rw [hb] at hmsg
    exact Bool.noConfusion hmsg.notFull
  | some d =>
    rw [hb] at hmsg
    refine ⟨d, rfl, fun arrivals harr => ?_⟩
    have hquiet : (arrivals.foldl Browser.receive b).Quiet
        ∧ (arrivals.foldl Browser.receive b).page.shown
          = (splitDelta d).foldl Shown.receive b.page.shown := by
      rcases splitDelta_messages hmsg.isPartial with ⟨m, hm, hfull, -⟩ | ⟨-, m, q, hm, hfull, -, -, hrun⟩
      · rw [hm] at harr ⊢
        obtain ⟨a, rfl, rfl⟩ := List.map_eq_singleton_iff.mp harr
        exact receive_isFull b (hfull.trans hmsg.isFull)
      · rw [hm] at harr ⊢
        obtain ⟨a, rest, rfl, rfl, hrest⟩ := List.map_eq_cons_iff.mp harr
        obtain ⟨hclear, hfirst⟩ := receive_isFull b hfull
        obtain ⟨hquiet, hshown⟩ := hrun.browser hrest hclear
        rw [hfirst] at hshown
        exact ⟨hquiet, hshown⟩
    obtain ⟨hquiet, hshown⟩ := hquiet
    rw [receive_full hmsg.isFull hmsg.isPartial, full_listing hd (fun _ => hin) hmsg] at hshown
    exact ⟨congrArg Shown.nodes hshown, congrArg Shown.edges hshown, hquiet⟩

/-- A browser with an item of an old session, a delta that waits and half a snapshot. -/
def leftoverBrowser : Browser Int where
  page :=
    { nodes := { items := (∅ : KeyedMap String (ViewNode Int)).insert "10.0.0.9"
                   { id := "10.0.0.9", value := 1, x := 0, y := 0 } }
      fullSyncIds := some (["10.0.0.9"], []) }
  pendingUpdate := some { removedNodes := ["10.0.0.5"] }
  updateScheduled := true
  updateTimer := some 100

theorem fullSnapshot_resyncs_leftover :
    ∃ d, (Client.buildDelta {} (smallTicks.head (by decide)).view [] true).1 = some d
      ∧ ∀ arrivals : List (Arrival Int), arrivals.map Arrival.data = splitDelta d →
          (arrivals.foldl Browser.receive leftoverBrowser).page.nodes.ids
              = {id | id ∈ (smallTicks.head (by decide)).view.nodes.map ViewNode.id}
            ∧ (arrivals.foldl Browser.receive leftoverBrowser).page.edges.ids
              = {id | id ∈ (smallTicks.head (by decide)).view.edges.map ViewEdge.id}
            ∧ (arrivals.foldl Browser.receive leftoverBrowser).Quiet :=
  fullSnapshot_resyncs {} leftoverBrowser (smallTicks.head (by decide)).view [] (by decide) (by decide)

end Etherchimp
