import Etherchimp.Proof.Resync

/-!
# What the throttle loses

The server never resends: each delta is relative to the view before it. The browser
holds one delta back until its timer fires, and a delta that arrives meanwhile takes
its place. A `Session` is the server, the messages in flight and the browser, next to
a twin page that applies every message as it arrives.

The page at rest shows what the twin shows exactly when each delta that the timer
applies covers the deltas it took the place of (`Change.Covers`): every id that it does
not mention itself is already on the page as they told last.
-/

namespace Etherchimp

variable {F : Type}

structure Session (F : Type) where
  server : Client F
  /-- The view built last. -/
  lastView : ViewSnapshot F := { nodes := [], edges := [] }
  /-- The messages in flight. -/
  queue : List (ViewDelta F) := []
  browser : Browser F
  twin : Page F
  /-- The deltas that were replaced since the one that waits was scheduled. -/
  dropped : List (ViewDelta F) := []

inductive SessionEvent (F : Type)
  | tick (t : Tick F)
  | deliver (look : Look F) (now : Int)
  | timer (look : Look F) (now : Int)

/-- Nothing waits, and no full snapshot is half received. -/
structure Browser.AtRest (b : Browser F) : Prop where
  pending : b.pendingUpdate = none
  scheduled : b.updateScheduled = false
  whole : b.page.fullSyncIds = none

namespace Session

/-- A page that shows some items, connected to a server. -/
def start (c : Client F) (nodes : Layer (ViewNode F)) (edges : Layer (ViewEdge F)) : Session F where
  server := c
  browser := { page := { nodes := nodes, edges := edges } }
  twin := { nodes := nodes, edges := edges }

def deliver (s : Session F) (look : Look F) (now : Int) : Session F :=
  match s.queue with
  | [] => s
  | d :: queue =>
      { s with
        queue := queue
        browser := s.browser.throttledUpdateGraph look now d
        twin := s.twin.updateGraph look d
        dropped :=
          if d.isFull = false ∧ d.isPartial = false ∧ s.browser.updateScheduled = true then
            s.dropped ++ s.browser.pendingUpdate.toList
          else [] }

/-- The timer fires, when it is set and due. -/
def timer (s : Session F) (look : Look F) (now : Int) : Session F :=
  match s.browser.updateTimer with
  | some due =>
      if due ≤ now then { s with browser := s.browser.fireTimer look now, dropped := [] } else s
  | none => s

/-- The page at rest shows what it would had every message been applied as it arrived. -/
def InSync (s : Session F) : Prop := s.browser.AtRest → s.browser.page.shown = s.twin.shown

/-- The delta the timer applies covers those it took the place of. -/
def Covered (s : Session F) : SessionEvent F → Prop
  | .timer _ now => ∀ due p, s.browser.updateTimer = some due → due ≤ now →
      s.browser.pendingUpdate = some p →
        Change.Covers s.browser.page.nodes.ids (s.dropped.map ViewDelta.nodeChange) p.nodeChange
          ∧ Change.Covers s.browser.page.edges.ids (s.dropped.map ViewDelta.edgeChange) p.edgeChange
  | _ => True

/-- The deltas the page has not applied. -/
def waiting (s : Session F) : List (ViewDelta F) := s.dropped ++ s.browser.pendingUpdate.toList

/-- What the page would show had the deltas been applied. -/
def replay (s : Session F) : Shown where
  nodes := (s.waiting.map ViewDelta.nodeChange).foldl Change.apply s.browser.page.nodes.ids
  edges := (s.waiting.map ViewDelta.edgeChange).foldl Change.apply s.browser.page.edges.ids
  syncing := none

/-- The twin is the page with the waiting deltas applied. -/
structure Replays (s : Session F) : Prop where
  framing : Framing s.twin.fullSyncIds.isSome s.queue
  syncing : s.browser.page.fullSyncIds = s.twin.fullSyncIds
  scheduled : s.browser.updateScheduled = s.browser.pendingUpdate.isSome
  timer : s.browser.updateTimer.isSome = s.browser.updateScheduled
  /-- What waits is a delta. -/
  plain : ∀ p, s.browser.pendingUpdate = some p → p.isFull = false ∧ p.fullDone = false
  /-- Deltas are dropped only behind one that waits. -/
  dropped : s.browser.pendingUpdate = none → s.dropped = []
  /-- Nothing waits while a full snapshot comes in, and all of it so far is on both pages. -/
  collected : ∀ acc, s.twin.fullSyncIds = some acc → s.browser.pendingUpdate = none
    ∧ (∀ id ∈ acc.1, id ∈ s.browser.page.nodes.ids ∧ id ∈ s.twin.nodes.ids)
    ∧ ∀ id ∈ acc.2, id ∈ s.browser.page.edges.ids ∧ id ∈ s.twin.edges.ids
  replay : s.twin.fullSyncIds = none → s.twin.shown = s.replay

variable {s : Session F}

/-- At rest nothing waits, so the page shows what the twin shows. -/
theorem Replays.inSync (h : s.Replays) : s.InSync := by
  intro hrest
  have hnone : s.twin.fullSyncIds = none := h.syncing ▸ hrest.whole
  have hwait : s.waiting = [] := by
    unfold waiting
    rw [hrest.pending, h.dropped hrest.pending]
    rfl
  rw [h.replay hnone, Session.replay, hwait]
  exact Shown.ext rfl rfl hrest.whole

theorem Replays.start (c : Client F) (nodes : Layer (ViewNode F)) (edges : Layer (ViewEdge F)) :
    (start c nodes edges).Replays where
  framing := .done
  syncing := rfl
  scheduled := rfl
  timer := rfl
  plain p h := by cases h
  dropped _ := rfl
  collected acc h := by cases h
  replay _ := rfl

/-! ## A message arrives -/

/-- What the throttle does with a delta: it takes the place of the one that waits, is applied, or waits. -/
theorem throttledUpdateGraph_delta (look : Look F) (now : Int) (b : Browser F) {d : ViewDelta F}
    (hfull : d.isFull = false) (hpart : d.isPartial = false) :
    (b.updateScheduled = true ∧ b.throttledUpdateGraph look now d = { b with pendingUpdate := some d })
      ∨ (b.updateScheduled = false ∧ (b.throttledUpdateGraph look now d
            = { b with
                page := b.page.updateGraph look d, pendingUpdate := none, lastUpdateTime := now }
          ∨ ∃ due, b.throttledUpdateGraph look now d
            = { b with pendingUpdate := some d, updateScheduled := true, updateTimer := some due })) := by
  unfold Browser.throttledUpdateGraph
  rw [if_neg fun hc => Bool.eq_false_iff.mp hpart hc.1, if_neg (Bool.eq_false_iff.mp hfull)]
  dsimp only
  cases hs : b.updateScheduled with
  | true => exact Or.inl ⟨rfl, if_pos rfl⟩
  | false =>
    rw [if_neg Bool.false_ne_true]
    refine Or.inr ⟨rfl, ?_⟩
    split
    · exact Or.inl rfl
    · exact Or.inr ⟨_, rfl⟩

theorem deliver_cons {d : ViewDelta F} {q : List (ViewDelta F)} (hq : s.queue = d :: q)
    (look : Look F) (now : Int) : s.deliver look now =
      { s with
        queue := q
        browser := s.browser.throttledUpdateGraph look now d
        twin := s.twin.updateGraph look d
        dropped :=
          if d.isFull = false ∧ d.isPartial = false ∧ s.browser.updateScheduled = true then
            s.dropped ++ s.browser.pendingUpdate.toList
          else [] } := by
  unfold deliver
  rw [hq]

/-- Both pages show the same, and nothing waits. -/
theorem Replays.of_quiet {s' : Session F} (hframing : Framing false s'.queue)
    (hquiet : s'.browser.Quiet) (hdropped : s'.dropped = [])
    (hpage : s'.browser.page.shown = s'.twin.shown) (hnone : s'.twin.fullSyncIds = none) :
    s'.Replays := by
  have hwait : s'.waiting = [] := by
    unfold waiting
    rw [hquiet.pending, hdropped]
    rfl
  constructor
  · rw [hnone]
    exact hframing
  · exact congrArg Shown.syncing hpage
  · rw [hquiet.scheduled, hquiet.pending]
    rfl
  · rw [hquiet.timer, hquiet.scheduled]
    rfl
  · intro p hp
    rw [hquiet.pending] at hp
    cases hp
  · exact fun _ => hdropped
  · intro acc hacc
    rw [hnone] at hacc
    cases hacc
  · intro _
    rw [← hpage, Session.replay, hwait]
    exact Shown.ext rfl rfl ((congrArg Shown.syncing hpage).trans hnone)

/-- A delta that waits, behind the deltas whose place it took. -/
theorem Replays.of_waiting {s' : Session F} {d : ViewDelta F} (h : s.Replays)
    (hnone : s.twin.fullSyncIds = none) (hframing : Framing false s'.queue)
    (hpage : s'.browser.page = s.browser.page) (hpending : s'.browser.pendingUpdate = some d)
    (hscheduled : s'.browser.updateScheduled = true) (htimer : s'.browser.updateTimer.isSome = true)
    (hwait : s'.waiting = s.waiting ++ [d])
    (htwin : s'.twin.shown = s.twin.shown.receive d) (hfull : d.isFull = false)
    (hdone : d.fullDone = false) : s'.Replays := by
  have hreplay : s'.replay = s.replay.receive d := by
    rw [receive_delta hfull hdone rfl]
    unfold Session.replay
    rw [hwait, hpage, List.map_append, List.map_append, List.foldl_append, List.foldl_append]
    rfl
  have hstill : s'.twin.fullSyncIds = none := by
    have hsync := congrArg Shown.syncing htwin
    rw [receive_delta hfull hdone hnone] at hsync
    exact hsync
  constructor
  · rw [hstill]
    exact hframing
  · rw [hpage, h.syncing, hnone, hstill]
  · rw [hscheduled, hpending]
    rfl
  · rw [htimer, hscheduled]
  · intro p hp
    rw [hpending] at hp
    cases hp
    exact ⟨hfull, hdone⟩
  · intro hp
    rw [hpending] at hp
    cases hp
  · intro acc hacc
    rw [hstill] at hacc
    cases hacc
  · intro _
    rw [htwin, hreplay, h.replay hnone]

/-- Nothing waits as long as nothing is scheduled. -/
theorem Replays.quiet (h : s.Replays) (hs : s.browser.updateScheduled = false) :
    s.browser.Quiet ∧ s.waiting = [] := by
  have hp : s.browser.pendingUpdate = none := by
    have hp := h.scheduled
    rw [hs] at hp
    exact Option.isSome_eq_false_iff.mp hp.symm |> Option.isNone_iff_eq_none.mp
  have ht : s.browser.updateTimer = none := by
    have ht := h.timer
    rw [hs] at ht
    exact Option.isSome_eq_false_iff.mp ht |> Option.isNone_iff_eq_none.mp
  refine ⟨⟨hp, hs, ht⟩, ?_⟩
  unfold waiting
  rw [hp, h.dropped hp]
  rfl

/-- A delta that arrives joins the ones that wait, or finds none and is applied. -/
theorem Replays.deliver_delta {d : ViewDelta F} {q : List (ViewDelta F)} (h : s.Replays)
    (hq : s.queue = d :: q) (hnone : s.twin.fullSyncIds = none) (hfull : d.isFull = false)
    (hpart : d.isPartial = false) (hdone : d.fullDone = false) (hrest : Framing false q)
    (look : Look F) (now : Int) : (s.deliver look now).Replays := by
  rw [deliver_cons hq]
  rcases throttledUpdateGraph_delta look now s.browser hfull hpart with
    ⟨hs, hb⟩ | ⟨hs, hb | ⟨due, hb⟩⟩
  · refine h.of_waiting (d := d) hnone hrest (by rw [hb]) (by rw [hb]) (by rw [hb]; exact hs) ?_ ?_
      (shown_updateGraph ..) hfull hdone
    · rw [hb]
      exact h.timer.trans hs
    · rw [hb]
      unfold waiting
      rw [if_pos ⟨hfull, hpart, hs⟩]
      rfl
  · -- nothing waits: both pages show the same and both apply it
    obtain ⟨hquiet, hwait⟩ := h.quiet hs
    have hsame : s.browser.page.shown = s.twin.shown := by
      rw [h.replay hnone, Session.replay, hwait]
      exact Shown.ext rfl rfl (h.syncing.trans hnone)
    refine Replays.of_quiet hrest ?_ ?_ ?_ ?_
    · rw [hb]
      exact ⟨rfl, hs, hquiet.timer⟩
    · exact if_neg fun hc => Bool.eq_false_iff.mp hs hc.2.2
    · rw [hb]
      exact (shown_updateGraph ..).trans ((congrArg (Shown.receive · d) hsame).trans (shown_updateGraph ..).symm)
    · have hsync := congrArg Shown.syncing (shown_updateGraph look s.twin d)
      rw [receive_delta hfull hdone hnone] at hsync
      exact hsync
  · obtain ⟨hquiet, hwait⟩ := h.quiet hs
    refine h.of_waiting (d := d) hnone hrest (by rw [hb]) (by rw [hb]) (by rw [hb]) (by rw [hb]; rfl) ?_
      (shown_updateGraph ..) hfull hdone
    rw [hb, hwait]
    unfold waiting
    rw [if_neg fun hc => Bool.eq_false_iff.mp hs hc.2.2]
    rfl

/-- A full snapshot, or its first chunk, clears the throttle. -/
theorem throttledUpdateGraph_isFull (look : Look F) (now : Int) (b : Browser F) {d : ViewDelta F}
    (hfull : d.isFull = true) : (b.throttledUpdateGraph look now d).Quiet
      ∧ (b.throttledUpdateGraph look now d).page.shown = b.page.shown.receive d :=
  receive_isFull b (a := ⟨look, now, d⟩) hfull

/-- The first chunk of a full snapshot, or a later one that does not complete it, is collected on both pages. -/
theorem Replays.of_collected {s' : Session F} {acc : List String × List String}
    (hframing : Framing true s'.queue) (hquiet : s'.browser.Quiet) (hdropped : s'.dropped = [])
    (hpage : s'.browser.page.fullSyncIds = some acc) (htwin : s'.twin.fullSyncIds = some acc)
    (hnodes : ∀ id ∈ acc.1, id ∈ s'.browser.page.nodes.ids ∧ id ∈ s'.twin.nodes.ids)
    (hedges : ∀ id ∈ acc.2, id ∈ s'.browser.page.edges.ids ∧ id ∈ s'.twin.edges.ids) :
    s'.Replays := by
  constructor
  · rw [htwin]
    exact hframing
  · rw [hpage, htwin]
  · rw [hquiet.scheduled, hquiet.pending]
    rfl
  · rw [hquiet.timer, hquiet.scheduled]
    rfl
  · intro p hp
    rw [hquiet.pending] at hp
    cases hp
  · exact fun _ => hdropped
  · intro acc' hacc
    rw [htwin] at hacc
    cases hacc
    exact ⟨hquiet.pending, hnodes, hedges⟩
  · intro hnone
    rw [htwin] at hnone
    cases hnone

/-- **A message that arrives keeps the twin the page with the waiting deltas applied.** -/
theorem Replays.deliver (h : s.Replays) (look : Look F) (now : Int) :
    (s.deliver look now).Replays := by
  have hframing := h.framing
  cases hq : s.queue with
  | nil =>
    have hd : s.deliver look now = s := by
      unfold Session.deliver
      rw [hq]
    rw [hd]
    exact h
  | cons d q =>
    rw [hq] at hframing
    have htwin := shown_updateGraph look s.twin d
    cases hsync : s.twin.fullSyncIds with
    | none =>
      rw [hsync] at hframing
      cases hframing with
      | delta hfull hpart hdone hrest =>
        exact h.deliver_delta hq hsync hfull hpart hdone hrest look now
      | full hfull hpart hdone hrest =>
        obtain ⟨hquiet, hpage⟩ := throttledUpdateGraph_isFull look now s.browser hfull
        rw [receive_whole hfull hpart hdone] at hpage htwin
        rw [deliver_cons hq]
        exact Replays.of_quiet hrest hquiet (if_neg fun hc => Bool.eq_false_iff.mp hc.1 hfull)
          (hpage.trans htwin.symm) (congrArg Shown.syncing htwin)
      | first hfull hpart hdone hrest =>
        obtain ⟨hquiet, hpage⟩ := throttledUpdateGraph_isFull look now s.browser hfull
        rw [receive_first hfull hpart hdone] at hpage htwin
        rw [deliver_cons hq]
        refine Replays.of_collected hrest hquiet (if_neg fun hc => Bool.eq_false_iff.mp hc.1 hfull)
          (congrArg Shown.syncing hpage) (congrArg Shown.syncing htwin) ?_ ?_
        · intro id hid
          exact ⟨(congrArg (id ∈ Shown.nodes ·) hpage).mpr (Or.inl hid),
            (congrArg (id ∈ Shown.nodes ·) htwin).mpr (Or.inl hid)⟩
        · intro id hid
          exact ⟨(congrArg (id ∈ Shown.edges ·) hpage).mpr (Or.inl hid),
            (congrArg (id ∈ Shown.edges ·) htwin).mpr (Or.inl hid)⟩
    | some acc =>
      rw [hsync] at hframing
      obtain ⟨hpending, hnodes, hedges⟩ := h.collected acc hsync
      have hs : s.browser.updateScheduled = false := by
        rw [h.scheduled, hpending]
        rfl
      obtain ⟨hquiet, -⟩ := h.quiet hs
      have hsyncp : s.browser.page.shown.syncing = some acc := h.syncing.trans hsync
      have hkept : (if d.isFull = false ∧ d.isPartial = false ∧ s.browser.updateScheduled = true then
          s.dropped ++ s.browser.pendingUpdate.toList else []) = [] :=
        if_neg fun hc => Bool.eq_false_iff.mp hs hc.2.2
      have hpage := shown_updateGraph look s.browser.page d
      have hb : d.isFull = false → d.isPartial = true → s.browser.throttledUpdateGraph look now d
          = { s.browser with page := s.browser.page.updateGraph look d } :=
        fun hfull hpart => receive_isPartial s.browser (a := ⟨look, now, d⟩) hfull hpart
      cases hframing with
      | chunk hfull hpart hdone hn he hrest =>
        rw [receive_chunk hfull hdone hsync] at htwin
        rw [receive_chunk hfull hdone hsyncp] at hpage
        rw [deliver_cons hq, hb hfull hpart]
        refine Replays.of_collected hrest ⟨hquiet.pending, hquiet.scheduled, hquiet.timer⟩ hkept
          (congrArg Shown.syncing hpage) (congrArg Shown.syncing htwin) ?_ ?_
        · intro id hid
          exact ⟨(congrArg (id ∈ Shown.nodes ·) hpage).mpr
              (mem_apply_of_collected (c := d.nodeChange) hn (fun id hid => (hnodes id hid).1) id hid),
            (congrArg (id ∈ Shown.nodes ·) htwin).mpr
              (mem_apply_of_collected (c := d.nodeChange) hn (fun id hid => (hnodes id hid).2) id hid)⟩
        · intro id hid
          exact ⟨(congrArg (id ∈ Shown.edges ·) hpage).mpr
              (mem_apply_of_collected (c := d.edgeChange) he (fun id hid => (hedges id hid).1) id hid),
            (congrArg (id ∈ Shown.edges ·) htwin).mpr
              (mem_apply_of_collected (c := d.edgeChange) he (fun id hid => (hedges id hid).2) id hid)⟩
      | last hfull hpart hdone hn he hrest =>
        -- all that was collected is on both pages, so both are left with it
        have hrun : ChunkRun [d] := .last hfull hpart hdone hn he
        have hleft : s.twin.shown.receive d = Shown.listing [d] acc :=
          hrun.receive hsync (fun id hid => (hnodes id hid).2) fun id hid => (hedges id hid).2
        have hleftp : s.browser.page.shown.receive d = Shown.listing [d] acc :=
          hrun.receive hsyncp (fun id hid => (hnodes id hid).1) fun id hid => (hedges id hid).1
        rw [hleft] at htwin
        rw [hleftp] at hpage
        rw [deliver_cons hq, hb hfull hpart]
        exact Replays.of_quiet hrest ⟨hquiet.pending, hquiet.scheduled, hquiet.timer⟩ hkept
          (hpage.trans htwin.symm) (congrArg Shown.syncing htwin)

/-! ## The timer fires -/

/-- When the timer is due a delta waits, and it is the last that the page has not applied. -/
theorem Replays.due (h : s.Replays) {due : Int} (ht : s.browser.updateTimer = some due) :
    s.twin.fullSyncIds = none
      ∧ ∃ p, s.browser.pendingUpdate = some p ∧ p.isFull = false ∧ p.fullDone = false := by
  have hp : s.browser.pendingUpdate.isSome = true := by
    rw [← h.scheduled, ← h.timer, ht]
    rfl
  obtain ⟨p, hp⟩ := Option.isSome_iff_exists.mp hp
  refine ⟨?_, p, hp, h.plain p hp⟩
  cases hsync : s.twin.fullSyncIds with
  | none => rfl
  | some acc =>
    have hnone := (h.collected acc hsync).1
    rw [hp] at hnone
    cases hnone

/-- **The timer leaves the page in sync exactly when its delta covers the dropped ones.** -/
theorem Replays.fire (h : s.Replays) (look : Look F) {now due : Int} {p : ViewDelta F}
    (ht : s.browser.updateTimer = some due) (hdue : due ≤ now)
    (hp : s.browser.pendingUpdate = some p) :
    ((s.timer look now).InSync ↔
        Change.Covers s.browser.page.nodes.ids (s.dropped.map ViewDelta.nodeChange) p.nodeChange
          ∧ Change.Covers s.browser.page.edges.ids (s.dropped.map ViewDelta.edgeChange) p.edgeChange)
      ∧ ((s.timer look now).InSync → (s.timer look now).Replays) := by
  obtain ⟨hnone, p', hp', hfull, hdone⟩ := h.due ht
  rw [hp] at hp'
  cases hp'
  have hfired : s.timer look now = { s with browser := s.browser.fireTimer look now, dropped := [] } := by
    unfold Session.timer
    rw [ht]
    exact if_pos hdue
  have hpage : (s.browser.fireTimer look now).page.shown
      = ⟨p.nodeChange.apply s.browser.page.nodes.ids, p.edgeChange.apply s.browser.page.edges.ids, none⟩ := by
    have hfire : (s.browser.fireTimer look now).page = s.browser.page.updateGraph look p := by
      unfold Browser.fireTimer
      rw [hp]
    rw [hfire, shown_updateGraph, receive_delta hfull hdone (h.syncing.trans hnone)]
    rfl
  have htwin : s.twin.shown
      = ⟨p.nodeChange.apply
            ((s.dropped.map ViewDelta.nodeChange).foldl Change.apply s.browser.page.nodes.ids),
          p.edgeChange.apply
            ((s.dropped.map ViewDelta.edgeChange).foldl Change.apply s.browser.page.edges.ids), none⟩ := by
    have hwait : s.waiting = s.dropped ++ [p] := by
      unfold waiting
      rw [hp]
      rfl
    rw [h.replay hnone, Session.replay, hwait, List.map_append, List.map_append, List.foldl_append,
      List.foldl_append]
    rfl
  rw [hfired]
  constructor
  · rw [← Change.covers_iff, ← Change.covers_iff]
    constructor
    · intro hsync
      have heq : (s.browser.fireTimer look now).page.shown = s.twin.shown :=
        hsync ⟨rfl, rfl, congrArg Shown.syncing hpage⟩
      rw [hpage, htwin] at heq
      exact ⟨congrArg Shown.nodes heq, congrArg Shown.edges heq⟩
    · intro hc _
      refine hpage.trans ?_
      rw [htwin]
      exact Shown.ext hc.1 hc.2 rfl
  · intro hsync
    have hframing := h.framing
    rw [hnone] at hframing
    exact Replays.of_quiet hframing ⟨rfl, rfl, rfl⟩ rfl
      (hsync ⟨rfl, rfl, congrArg Shown.syncing hpage⟩) hnone

/-- A timer that is not set, or not due. -/
theorem timer_idle (look : Look F) {now : Int}
    (h : ∀ due, s.browser.updateTimer = some due → ¬ due ≤ now) : s.timer look now = s := by
  unfold Session.timer
  cases ht : s.browser.updateTimer with
  | none => rfl
  | some due => exact if_neg (h due ht)

/-! ## Runs -/

variable [Float64 F]

/-- The server builds the view of a tick and sends its messages. -/
def tick (s : Session F) (t : Tick F) : Session F :=
  let r := s.server.buildDelta t.view t.flows t.full
  { s with
    server := r.2
    lastView := t.view
    queue := s.queue ++
      match r.1 with
      | none => []
      | some d => splitDelta d }

def step (s : Session F) : SessionEvent F → Session F
  | .tick t => s.tick t
  | .deliver look now => s.deliver look now
  | .timer look now => s.timer look now

theorem Replays.tick (h : s.Replays) (t : Tick F) : (s.tick t).Replays := by
  have hmsgs : Framing false (match (s.server.buildDelta t.view t.flows t.full).1 with
      | none => []
      | some d => splitDelta d) := by
    obtain ⟨-, hmsg⟩ := buildDelta_spec s.server t.view t.flows t.full
    cases hb : (s.server.buildDelta t.view t.flows t.full).1 with
    | none => exact .done
    | some d =>
      rw [hb] at hmsg
      exact splitDelta_framing hmsg.isPartial
  exact ⟨h.framing.append hmsgs, h.syncing, h.scheduled, h.timer, h.plain, h.dropped, h.collected,
    h.replay⟩

/-- **A step ends in sync exactly when it is covered**, and then the invariant goes on. -/
theorem Replays.step (h : s.Replays) (a : SessionEvent F) :
    ((s.step a).InSync ↔ s.Covered a) ∧ (s.Covered a → (s.step a).Replays) := by
  cases a with
  | tick t => exact ⟨iff_of_true (h.tick t).inSync trivial, fun _ => h.tick t⟩
  | deliver look now => exact ⟨iff_of_true (h.deliver look now).inSync trivial, fun _ => h.deliver look now⟩
  | timer look now =>
    by_cases hdue : ∃ due, s.browser.updateTimer = some due ∧ due ≤ now
    · obtain ⟨due, ht, hdue⟩ := hdue
      obtain ⟨-, p, hp, -⟩ := h.due ht
      obtain ⟨hiff, hnext⟩ := h.fire look ht hdue hp
      have hcovered : s.Covered (.timer look now) ↔ (s.timer look now).InSync := by
        rw [hiff]
        constructor
        · exact fun hc => hc due p ht hdue hp
        · intro hc due' p' _ _ hp'
          rw [hp] at hp'
          cases hp'
          exact hc
      exact ⟨hcovered.symm, fun hc => hnext (hcovered.mp hc)⟩
    · have hidle : s.step (.timer look now) = s :=
        timer_idle look fun due ht hle => hdue ⟨due, ht, hle⟩
      rw [hidle]
      exact ⟨iff_of_true h.inSync fun due _ ht hle => absurd ⟨due, ht, hle⟩ hdue, fun _ => h⟩

/-- Once the messages in flight are applied, the twin shows the view built last. -/
def Serves (s : Session F) : Prop :=
  s.queue.foldl Shown.receive s.twin.shown = s.lastView.shown ∧ s.server.shown = s.lastView.shown

theorem Serves.step (h : s.Serves) (a : SessionEvent F)
    (ha : ∀ t, a = .tick t → t.Sendable) : (s.step a).Serves := by
  cases a with
  | tick t =>
    have ht := ha t rfl
    refine ⟨?_, buildDelta_shown s.server ht.1 t.flows t.full⟩
    show (s.queue ++ _).foldl Shown.receive s.twin.shown = t.view.shown
    rw [List.foldl_append, h.1, ← h.2]
    exact tick_shown s.server ht (Or.inr rfl)
  | deliver look now =>
    unfold Session.step
    cases hq : s.queue with
    | nil =>
      have hd : s.deliver look now = s := by
        unfold Session.deliver
        rw [hq]
      dsimp only
      rw [hd]
      exact h
    | cons d q =>
      dsimp only
      rw [deliver_cons hq]
      refine ⟨?_, h.2⟩
      have hq' := h.1
      rw [hq, List.foldl_cons, ← shown_updateGraph look] at hq'
      exact hq'
  | timer look now =>
    show (s.timer look now).Serves
    unfold Session.timer
    split
    · split
      · exact h
      · exact h
    · exact h

/-- The first full snapshot makes the page serve the view, whatever it showed. -/
theorem Serves.first (c : Client F) (nodes : Layer (ViewNode F)) (edges : Layer (ViewEdge F))
    {t : Tick F} (hfull : t.full = true) (ht : t.Sendable) : ((start c nodes edges).tick t).Serves := by
  refine ⟨?_, buildDelta_shown c ht.1 t.flows t.full⟩
  have h := tick_shown (s := (start c nodes edges).twin.shown) c ht (Or.inl hfull)
  exact h

/--
**The page at rest shows what the messages say exactly when the timer never applies a
delta that leaves dropped ones uncovered**; and what the messages say, once all of them
are in, is the view built last.
-/
theorem throttle_inSync_iff (c : Client F) (nodes : Layer (ViewNode F)) (edges : Layer (ViewEdge F))
    (first : Tick F) (events : List (SessionEvent F)) (hfull : first.full = true) :
    (Run.Guarded step (fun s a => (s.step a).InSync) (start c nodes edges) (.tick first :: events)
        ↔ Run.Guarded step Covered (start c nodes edges) (.tick first :: events))
      ∧ ((∀ t, .tick t ∈ SessionEvent.tick first :: events → t.Sendable) →
        (Run.exec step (start c nodes edges) (.tick first :: events)).queue = [] →
        (Run.exec step (start c nodes edges) (.tick first :: events)).twin.shown
          = (Run.exec step (start c nodes edges) (.tick first :: events)).lastView.shown) := by
  constructor
  · exact Run.guarded_congr (P := Replays) (fun s a hs => (hs.step a).1)
      (fun s a hs hc => (hs.step a).2 hc) (Replays.start c nodes edges)
  · intro hsend hempty
    have hfirst : ((start c nodes edges).tick first).Serves :=
      Serves.first c nodes edges hfull (hsend first (List.mem_cons_self ..))
    have hticks : Run.Guarded step (fun _ a => ∀ t, a = .tick t → t.Sendable)
        ((start c nodes edges).tick first) events :=
      Run.guarded_of_forall _ fun a ha t hat => hsend t (List.mem_cons_of_mem _ (hat ▸ ha))
    have hrun : (Run.exec step ((start c nodes edges).tick first) events).Serves :=
      Run.invariant hfirst (fun s a hs ha => hs.step a ha) hticks
    have hserves := hrun.1
    rw [Run.exec_cons] at hempty ⊢
    have hq : (Run.exec step ((start c nodes edges).tick first) events).queue = [] := hempty
    rw [hq] at hserves
    exact hserves

end Session

/-! ## Two runs -/

/-- A page that draws every item alike. -/
def plainLook : Look Int := ⟨fun _ => "", fun _ => ""⟩

def hostsView (ids : List String) : ViewSnapshot Int where
  nodes := ids.map fun id => { id := id, value := 0, x := 0, y := 0 }
  edges := []

/-- Two hosts appear, one tick after another, both while the page shows the first view. -/
def appearingHosts : List (SessionEvent Int) :=
  [.deliver plainLook 0,
    .tick { view := hostsView ["10.0.0.5", "10.0.0.6"] }, .deliver plainLook 50,
    .tick { view := hostsView ["10.0.0.5", "10.0.0.6", "10.0.0.7"] }, .deliver plainLook 90,
    .timer plainLook 100]

/-- The times of the arrivals and of the timer never go back. -/
def SessionEvent.at? {F : Type} : SessionEvent F → Option Int
  | .tick _ => none
  | .deliver _ now => some now
  | .timer _ now => some now

/-- A host appears and is busier in the next view, with another one beside it. -/
def busierHosts : List (SessionEvent Int) :=
  [.deliver plainLook 0,
    .tick { view := hostsView ["10.0.0.5", "10.0.0.6"] }, .deliver plainLook 50,
    .tick { view := {
      nodes := [{ id := "10.0.0.5", value := 0, x := 0, y := 0 },
        { id := "10.0.0.6", value := 1, x := 0, y := 0 },
        { id := "10.0.0.7", value := 0, x := 0, y := 0 }]
      edges := [] } }, .deliver plainLook 90,
    .timer plainLook 100]

/-- The delta that waited lists the host of the one it took the place of. -/
theorem throttle_inSync_busier :
    Run.Guarded Session.step (fun s a => (s.step a).InSync) (Session.start ({} : Client Int) {} {})
        (.tick { view := hostsView ["10.0.0.5"], full := true } :: busierHosts)
      ∧ (Run.exec Session.step (Session.start ({} : Client Int) {} {})
          (.tick { view := hostsView ["10.0.0.5"], full := true } :: busierHosts)).twin.shown
        = (Run.exec Session.step (Session.start ({} : Client Int) {} {})
          (.tick { view := hostsView ["10.0.0.5"], full := true }
            :: busierHosts)).lastView.shown := by
  have h := Session.throttle_inSync_iff (F := Int) {} {} {}
    { view := hostsView ["10.0.0.5"], full := true } busierHosts rfl
  refine ⟨h.1.mpr ⟨trivial, trivial, trivial, trivial, trivial, trivial, ?_, trivial⟩, h.2 ?_ rfl⟩
  · intro due p _ _ hp
    obtain rfl := Option.some.inj hp
    exact ⟨Change.covers_of_mentioned (by decide), Change.covers_of_mentioned (by decide)⟩
  · intro t ht
    simp only [busierHosts, List.mem_cons, SessionEvent.tick.injEq, reduceCtorEq, false_or, or_false,
      List.not_mem_nil] at ht
    rcases ht with rfl | rfl | rfl <;> decide

/-- The second delta takes the place of the first, and `10.0.0.6` never appears. -/
theorem throttle_losesHost : ¬ ∀ (first : Tick Int) (events : List (SessionEvent Int)),
    first.full = true → (∀ t, .tick t ∈ SessionEvent.tick first :: events → t.Sendable) →
    (events.filterMap SessionEvent.at?).Pairwise (· ≤ ·) →
    Run.Guarded Session.step (fun s a => (s.step a).InSync) (Session.start {} {} {})
      (.tick first :: events) := by
  intro h
  have hrun := h { view := hostsView ["10.0.0.5"], full := true } appearingHosts rfl
    (by
      intro t ht
      simp only [appearingHosts, List.mem_cons, SessionEvent.tick.injEq, reduceCtorEq, false_or, or_false,
        List.not_mem_nil] at ht
      rcases ht with rfl | rfl | rfl <;> decide)
    (by decide)
  -- after the timer the page is at rest, without the host the twin shows
  obtain ⟨-, -, -, -, -, -, hlast, -⟩ := hrun
  have hsame := congrArg Shown.nodes (hlast ⟨rfl, rfl, rfl⟩)
  have htwin : "10.0.0.6" ∈ (Run.exec Session.step (Session.start ({} : Client Int) {} {})
      (.tick { view := hostsView ["10.0.0.5"], full := true } :: appearingHosts)).twin.shown.nodes :=
    ⟨_, rfl⟩
  obtain ⟨n, hn⟩ : "10.0.0.6" ∈ (Run.exec Session.step (Session.start ({} : Client Int) {} {})
      (.tick { view := hostsView ["10.0.0.5"], full := true } :: appearingHosts)).browser.page.shown.nodes :=
    hsame ▸ htwin
  cases hn

end Etherchimp
