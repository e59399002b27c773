import Etherchimp.Proof.Replica

/-!
# Counters over two channels

The counters of an entry travel with the style delta that lists it and in the counts
frame. Only the counts frame has a baseline of what it sent: a delta that carries
other counters does not move it. So a frame leaves out an entry whose counters are
back at the baseline, although the mirror holds what the delta carried.

`countsStream_current_iff` is exact: every frame of a run leaves the mirror with the
current counters if and only if no frame finds such an entry.
-/

namespace Etherchimp

variable {F : Type}

/-- The counters a client holds. -/
structure CountsMirror where
  nodes : KeyedMap String NodeCounts := ∅
  edges : KeyedMap String EdgeCounts := ∅

/-- Take the counters of every listed node and edge. -/
def CountsMirror.receiveDelta (m : CountsMirror) (d : ViewDelta F) : CountsMirror where
  nodes := Delta.upsert ViewNode.id ViewNode.counts m.nodes d.nodes
  edges := Delta.upsert ViewEdge.id ViewEdge.counts m.edges d.edges

/-- Overwrite the counters a counts frame lists. -/
def CountsMirror.receiveCounts (m : CountsMirror) (f : CountsFrame) : CountsMirror where
  nodes := KeyedMap.upsertAll (fun _ v => v) m.nodes f.nodes
  edges := KeyedMap.upsertAll (fun _ v => v) m.edges f.edges

/-- The mirror holds the counters of every node and edge of the view. -/
structure CountsMirror.Current (m : CountsMirror) (view : ViewSnapshot F) : Prop where
  nodes : ∀ n ∈ view.nodes, m.nodes.lookup n.id = some n.counts
  edges : ∀ e ∈ view.edges, m.edges.lookup e.id = some e.counts

instance (m : CountsMirror) (view : ViewSnapshot F) : Decidable (m.Current view) :=
  decidable_of_iff ((∀ n ∈ view.nodes, m.nodes.lookup n.id = some n.counts)
      ∧ ∀ e ∈ view.edges, m.edges.lookup e.id = some e.counts)
    ⟨fun h => ⟨h.1, h.2⟩, fun h => ⟨h.nodes, h.edges⟩⟩

structure CountsTick (F : Type) extends Tick F where
  protoStats : KeyedMap String Nat := ∅
  now : Int

/-- A client, its mirror, and what deltas carried since the last baseline. -/
structure CountsState (F : Type) where
  client : Client F := {}
  mirror : CountsMirror := {}
  since : CountsMirror := {}

variable [Float64 F]

namespace CountsState

/-- The counts frame of a tick: it is built after the delta. -/
def frame (s : CountsState F) (t : CountsTick F) : Option CountsFrame × Client F :=
  (s.client.buildDelta t.view t.flows t.full).2.buildCountsFrame t.view t.protoStats t.full t.now

def tick (s : CountsState F) (t : CountsTick F) : CountsState F :=
  let take (m : CountsMirror) : CountsMirror :=
    match (s.client.buildDelta t.view t.flows t.full).1 with
    | none => m
    | some d => m.receiveDelta d
  let frame := s.frame t
  { client := frame.2
    mirror :=
      match frame.1 with
      | none => take s.mirror
      | some f => (take s.mirror).receiveCounts f
    -- a full snapshot and a counts frame both set the baseline
    since := if s.client.lastCounts.isNone ∨ t.full ∨ frame.1.isSome then {} else take s.since }

/-- The counts baseline. -/
def base (s : CountsState F) : CountsMirror :=
  match s.client.lastCounts with
  | none => {}
  | some (nodes, edges) => { nodes := nodes, edges := edges }

/--
No entry that the delta leaves out is back at the counters of the baseline, zeros
when it has none, after a delta carried others.
-/
structure Settled (s : CountsState F) (t : CountsTick F) : Prop where
  nodes : ∀ n ∈ t.view.nodes,
    Delta.ships ViewNode.id nodeRenderEqual t.full s.client.lastNodes n = false →
    (s.base.nodes.lookup n.id).getD 0 = n.counts →
    ∀ v, s.since.nodes.lookup n.id = some v → v = n.counts
  edges : ∀ e ∈ t.view.edges,
    Delta.ships ViewEdge.id edgeRenderEqual t.full s.client.lastEdges e = false →
    (s.base.edges.lookup e.id).getD 0 = e.counts →
    ∀ v, s.since.edges.lookup e.id = some v → v = e.counts

/-- What the mirror holds, entry by entry. -/
structure Synced (s : CountsState F) : Prop where
  /-- Before the first view there is nothing to compare with. -/
  fresh : s.client.lastCounts = none →
    s.client.lastNodes.entries = [] ∧ s.client.lastEdges.entries = []
  nodes : Delta.Synced 0 s.client.lastNodes s.base.nodes s.since.nodes s.mirror.nodes
  edges : Delta.Synced 0 s.client.lastEdges s.base.edges s.since.edges s.mirror.edges

/-! ## The two steps of a tick -/

/-- The mirror once the delta of the tick is applied. -/
def afterDelta (s : CountsState F) (t : CountsTick F) (m : CountsMirror) : CountsMirror where
  nodes := Delta.upsert ViewNode.id ViewNode.counts m.nodes (s.client.diffNodes t.full t.view).changed
  edges := Delta.upsert ViewEdge.id ViewEdge.counts m.edges (s.client.diffEdges t.full t.view).changed

/-- What a delta lists is taken over, and a delta that is not sent lists nothing. -/
theorem take_eq (s : CountsState F) (t : CountsTick F) (m : CountsMirror) :
    (match (s.client.buildDelta t.view t.flows t.full).1 with
      | none => m
      | some d => m.receiveDelta d) = s.afterDelta t m := by
  obtain ⟨-, hmsg⟩ := buildDelta_spec s.client t.view t.flows t.full
  unfold afterDelta
  cases hd : (s.client.buildDelta t.view t.flows t.full).1 with
  | none =>
    rw [hd] at hmsg
    rw [hmsg.nodes, hmsg.edges]
    rfl
  | some d =>
    rw [hd] at hmsg
    dsimp only
    rw [CountsMirror.receiveDelta, hmsg.nodes, hmsg.edges]

/-- When the tick sends a counts frame. -/
def FrameDue (s : CountsState F) (t : CountsTick F) : Prop :=
  s.client.lastCounts ≠ none ∧ t.full = false ∧ ¬ t.now - s.client.lastCountsAt < countsInterval

/-- The counts frame of a view, against a baseline. -/
def countsFrameFor (base : CountsMirror) (t : CountsTick F) : CountsFrame where
  nodes := Delta.upsert ViewNode.id ViewNode.counts ∅
    (Delta.refresh ViewNode.id ViewNode.counts (Delta.staleFrom 0) base.nodes t.view.nodes).1
  edges := Delta.upsert ViewEdge.id ViewEdge.counts ∅
    (Delta.refresh ViewEdge.id ViewEdge.counts (Delta.staleFrom 0) base.edges t.view.edges).1
  stats := viewStatsFor t.view
  protocolStats := t.protoStats

/-- The three ways a tick ends: a new baseline without a frame, a frame, or neither. -/
inductive Ends (s : CountsState F) (t : CountsTick F) : Prop
  | reset (hreset : s.client.lastCounts = none ∨ t.full = true) (hframe : (s.frame t).1 = none)
      (hbase : (s.tick t).base =
        { nodes := Delta.upsert ViewNode.id ViewNode.counts ∅ t.view.nodes
          edges := Delta.upsert ViewEdge.id ViewEdge.counts ∅ t.view.edges })
      (hmirror : (s.tick t).mirror = s.afterDelta t s.mirror) (hsince : (s.tick t).since = {})
  | frame (hdue : s.FrameDue t) (hframe : (s.frame t).1 = some (countsFrameFor s.base t))
      (hbase : (s.tick t).base =
        { nodes := (Delta.refresh ViewNode.id ViewNode.counts (Delta.staleFrom 0) s.base.nodes
            t.view.nodes).2
          edges := (Delta.refresh ViewEdge.id ViewEdge.counts (Delta.staleFrom 0) s.base.edges
            t.view.edges).2 })
      (hmirror : (s.tick t).mirror
        = (s.afterDelta t s.mirror).receiveCounts (countsFrameFor s.base t))
      (hsince : (s.tick t).since = {})
  | neither (hdue : ¬ s.FrameDue t) (hframe : (s.frame t).1 = none)
      (hbase : (s.tick t).base = s.base)
      (hmirror : (s.tick t).mirror = s.afterDelta t s.mirror)
      (hsince : (s.tick t).since = s.afterDelta t s.since)

theorem tick_ends (s : CountsState F) (t : CountsTick F) :
    (s.tick t).client.lastNodes = (s.client.diffNodes t.full t.view).last
      ∧ (s.tick t).client.lastEdges = (s.client.diffEdges t.full t.view).last
      ∧ (s.tick t).client.lastCounts ≠ none ∧ s.Ends t := by
  obtain ⟨hclient, -⟩ := buildDelta_spec s.client t.view t.flows t.full
  have htick : s.tick t =
      { client := (s.frame t).2
        mirror :=
          match (s.frame t).1 with
          | none => s.afterDelta t s.mirror
          | some f => (s.afterDelta t s.mirror).receiveCounts f
        since := if s.client.lastCounts.isNone ∨ t.full ∨ (s.frame t).1.isSome then {}
          else s.afterDelta t s.since } := by
    unfold tick
    simp only [take_eq]
  have hbuilt : s.frame t = (s.client.buildDelta t.view t.flows t.full).2.buildCountsFrame t.view
      t.protoStats t.full t.now := rfl
  unfold Client.buildCountsFrame at hbuilt
  rw [hclient] at hbuilt
  dsimp only at hbuilt
  cases hl : s.client.lastCounts with
  | none =>
    rw [hl] at hbuilt
    dsimp only at hbuilt
    rw [hbuilt] at htick
    rw [htick]
    refine ⟨rfl, rfl, nofun, .reset (Or.inl hl) ?_ ?_ ?_ ?_⟩
    · rw [hbuilt]
    · rw [htick]; rfl
    · rw [htick]
    · rw [htick]; simp [hl]
  | some counts =>
    obtain ⟨nodes, edges⟩ := counts
    have hb : s.base = { nodes := nodes, edges := edges } := by
      unfold base
      rw [hl]
    rw [hl] at hbuilt
    dsimp only at hbuilt
    by_cases hfull : t.full = true
    · rw [if_pos hfull] at hbuilt
      rw [hbuilt] at htick
      rw [htick]
      refine ⟨rfl, rfl, nofun, .reset (Or.inr hfull) ?_ ?_ ?_ ?_⟩
      · rw [hbuilt]
      · rw [htick]; rfl
      · rw [htick]
      · rw [htick]; simp [hfull]
    · rw [if_neg hfull] at hbuilt
      have hnotFull : t.full = false := Bool.not_eq_true _ ▸ hfull
      by_cases hdue : t.now - s.client.lastCountsAt < countsInterval
      · rw [if_pos hdue] at hbuilt
        rw [hbuilt] at htick
        rw [htick]
        refine ⟨rfl, rfl, nofun, .neither (fun h => h.2.2 hdue) ?_ ?_ ?_ ?_⟩
        · rw [hbuilt]
        · rw [htick, hb]; rfl
        · rw [htick]
        · rw [htick]; simp [hl, hnotFull]
      · rw [if_neg hdue] at hbuilt
        rw [hbuilt] at htick
        rw [htick]
        refine ⟨rfl, rfl, nofun, .frame ⟨by rw [hl]; nofun, hnotFull, hdue⟩ ?_ ?_ ?_ ?_⟩
        · rw [hbuilt, hb]; rfl
        · rw [htick, hb]; rfl
        · rw [htick, hb]; rfl
        · rw [htick]; simp

/-! ## One channel -/

section Channel

variable {α ω : Type} {key : α → String} {val : α → ω} {same : α → α → Bool}
  {zero : ω} {full : Bool} {last : KeyedMap String α} {base since m : KeyedMap String ω}
  {view : List α}

/-- What a frame does to the mirror, entry by entry. -/
theorem frame_lookup [DecidableEq ω] (hnd : (view.map key).Nodup) (m : KeyedMap String ω) {x : α} (hx : x ∈ view) :
    (KeyedMap.upsertAll (fun _ v => v) m (Delta.upsert key val ∅
        (Delta.refresh key val (Delta.staleFrom zero) base view).1)).lookup (key x)
      = if Delta.staleFrom zero (base.lookup (key x)) (val x) then some (val x)
        else m.lookup (key x) := by
  rw [KeyedMap.lookup_upsertAll, Delta.refresh_shipped hnd, Delta.upsert_filter hnd _ _ hx]
  by_cases hs : Delta.staleFrom zero (base.lookup (key x)) (val x) = true
  · rw [if_pos hs, if_pos hs]
  · rw [if_neg hs, if_neg hs]
    rfl

/-- When everything is listed, the mirror has every counter of the view. -/
theorem listed_lookup (hnd : (view.map key).Nodup) (m : KeyedMap String ω)
    (hall : full = true ∨ ∀ k, last.lookup k = none) :
    ∀ x ∈ view, (Delta.upsert key val m (Delta.diff key same full last view).changed).lookup (key x)
      = some (val x) := by
  intro x hx
  rw [Delta.diff_changed hnd, Delta.upsert_filter hnd _ _ hx, if_pos]
  unfold Delta.ships
  rcases hall with rfl | hnone
  · rfl
  · rw [hnone, Option.any_none, Bool.not_false, Bool.or_true]

end Channel

/-! ## One tick -/

variable {s : CountsState F} {t : CountsTick F}

/-- **A frame leaves the mirror current exactly when no entry is unsettled.** -/
theorem tick_current_iff (hd : t.view.Distinct) (h : s.Synced) (hdue : s.FrameDue t) :
    (s.tick t).mirror.Current t.view ↔ s.Settled t := by
  obtain ⟨-, -, -, hends⟩ := s.tick_ends t
  cases hends with
  | reset hreset =>
    rcases hreset with hnone | hfull
    · exact absurd hnone hdue.1
    · rw [hdue.2.1] at hfull
      cases hfull
  | neither hnot => exact absurd hdue hnot
  | frame _ _ _ hmirror _ =>
    have hnodes := Delta.refresh_upToDate_iff ViewNode.counts (Delta.diff_last hd.nodes)
      (h.nodes.diff ViewNode.counts nodeRenderEqual t.full hd.nodes)
      (fun n hn => frame_lookup hd.nodes _ hn)
    have hedges := Delta.refresh_upToDate_iff ViewEdge.counts (Delta.diff_last hd.edges)
      (h.edges.diff ViewEdge.counts edgeRenderEqual t.full hd.edges)
      (fun e he => frame_lookup hd.edges _ he)
    rw [Delta.settled_diff_iff hd.nodes] at hnodes
    rw [Delta.settled_diff_iff hd.edges] at hedges
    rw [hmirror]
    constructor
    · intro hc
      exact ⟨hnodes.mp hc.nodes, hedges.mp hc.edges⟩
    · intro hs
      exact ⟨hnodes.mpr hs.nodes, hedges.mpr hs.edges⟩

/-- **A tick keeps the mirror synced** unless its frame leaves the mirror behind. -/
theorem Synced.tick (hd : t.view.Distinct) (h : s.Synced)
    (hok : s.FrameDue t → (s.tick t).mirror.Current t.view) : (s.tick t).Synced := by
  obtain ⟨hlastn, hlaste, hcounts, hends⟩ := s.tick_ends t
  have hn := h.nodes.diff ViewNode.counts nodeRenderEqual t.full hd.nodes
  have he := h.edges.diff ViewEdge.counts edgeRenderEqual t.full hd.edges
  have hholdn : Delta.Holds ViewNode.id t.view.nodes (s.client.diffNodes t.full t.view).last :=
    Delta.diff_last hd.nodes
  have hholde : Delta.Holds ViewEdge.id t.view.edges (s.client.diffEdges t.full t.view).last :=
    Delta.diff_last hd.edges
  refine ⟨fun hnone => absurd hnone hcounts, ?_, ?_⟩
  · rw [hlastn]
    cases hends with
    | reset hreset _ hbase hmirror hsince =>
      rw [hbase, hmirror, hsince]
      refine Delta.Synced.reset hd.nodes hholdn (listed_lookup hd.nodes _ ?_)
      exact hreset.symm.imp_right fun hnone k =>
        AList.lookup_eq_none.mpr fun hk => by
          rw [AList.mem_keys, AList.keys, (h.fresh hnone).1] at hk
          cases hk
    | frame hdue _ hbase _ hsince =>
      rw [hbase, hsince]
      exact Delta.Synced.refresh hd.nodes hholdn (hok hdue).nodes
    | neither _ _ hbase hmirror hsince =>
      rw [hbase, hmirror, hsince]
      exact hn
  · rw [hlaste]
    cases hends with
    | reset hreset _ hbase hmirror hsince =>
      rw [hbase, hmirror, hsince]
      refine Delta.Synced.reset hd.edges hholde (listed_lookup hd.edges _ ?_)
      exact hreset.symm.imp_right fun hnone k =>
        AList.lookup_eq_none.mpr fun hk => by
          rw [AList.mem_keys, AList.keys, (h.fresh hnone).2] at hk
          cases hk
    | frame hdue _ hbase _ hsince =>
      rw [hbase, hsince]
      exact Delta.Synced.refresh hd.edges hholde (hok hdue).edges
    | neither _ _ hbase hmirror hsince =>
      rw [hbase, hmirror, hsince]
      exact he

/-! ## Runs -/

/-- The tick sends no counts frame, or leaves the mirror current. -/
def FrameCurrent (s : CountsState F) (t : CountsTick F) : Prop :=
  (s.frame t).1.isSome = true → (s.tick t).mirror.Current t.view

/-- The tick sends no counts frame, or finds every entry settled. -/
def FrameSettled (s : CountsState F) (t : CountsTick F) : Prop := s.FrameDue t → s.Settled t

theorem frame_isSome_iff (s : CountsState F) (t : CountsTick F) :
    (s.frame t).1.isSome = true ↔ s.FrameDue t := by
  obtain ⟨-, -, -, hends⟩ := s.tick_ends t
  cases hends with
  | reset hreset hframe =>
    rw [hframe]
    refine iff_of_false nofun fun hdue => ?_
    rcases hreset with hnone | hfull
    · exact hdue.1 hnone
    · rw [hdue.2.1] at hfull
      cases hfull
  | frame hdue hframe =>
    rw [hframe]
    exact iff_of_true rfl hdue
  | neither hdue hframe =>
    rw [hframe]
    exact iff_of_false nofun hdue

theorem frameCurrent_iff (hd : t.view.Distinct) (h : s.Synced) :
    s.FrameCurrent t ↔ s.FrameSettled t := by
  unfold FrameCurrent FrameSettled
  rw [frame_isSome_iff]
  exact forall_congr' fun hdue => tick_current_iff hd h hdue

instance (s : CountsState F) (t : CountsTick F) : Decidable (s.Settled t) :=
  decidable_of_iff (_ ∧ _) ⟨fun h => ⟨h.1, h.2⟩, fun h => ⟨h.nodes, h.edges⟩⟩

instance (s : CountsState F) (t : CountsTick F) : Decidable (s.FrameCurrent t) :=
  inferInstanceAs (Decidable (_ → _))

instance (s : CountsState F) (t : CountsTick F) : Decidable (s.FrameSettled t) :=
  inferInstanceAs (Decidable (_ ∧ _ ∧ _ → _))

/--
**Every counts frame of a run leaves the mirror current exactly when each finds every
entry settled.**
-/
theorem countsStream_current_iff (cfg : ViewConfig) (ticks : List (CountsTick F))
    (hd : ∀ t ∈ ticks, t.view.Distinct) :
    Run.Guarded tick FrameCurrent { client := { cfg := cfg } } ticks
      ↔ Run.Guarded tick FrameSettled { client := { cfg := cfg } } ticks := by
  have hstart : Synced ({ client := { cfg := cfg } } : CountsState F) := by
    refine ⟨fun _ => ⟨rfl, rfl⟩, fun k x hl => ?_, fun k x hl => ?_⟩
    · cases hl
    · cases hl
  refine Run.guarded_congr_on (P := Synced) (q := fun t : CountsTick F => t.view.Distinct)
    (fun s t hs ht => frameCurrent_iff ht hs) ?_ hstart hd
  -- as long as the frames are current, the next state is synced
  intro s t hs ht hsettled
  refine hs.tick ht fun hdue => ?_
  exact (frameCurrent_iff ht hs).mpr hsettled ((frame_isSome_iff s t).mpr hdue)

end CountsState

/-! ## Two runs -/

/-- A node seen by the counts stream. -/
def countedView (label : String) (packetCount : Int) : ViewSnapshot Int where
  nodes := [{ id := "10.0.0.5", label := label, packetCount := packetCount, value := 0, x := 0, y := 0 }]
  edges := []

/-- Counters that only grow. -/
def growingTicks : List (CountsTick Int) :=
  [{ view := countedView "" 100, full := true, now := 0 },
   { view := countedView "nas" 101, now := 100000000 },
   { view := countedView "nas" 102, now := countsInterval }]

theorem countsStream_current_growing :
    Run.Guarded CountsState.tick CountsState.FrameCurrent
      ({ client := { cfg := {} } } : CountsState Int) growingTicks :=
  (CountsState.countsStream_current_iff {} growingTicks (by decide)).mpr (by decide)

/-- The node is renamed while it shows one more packet, and then shows as many as before. -/
def rescrubbedTicks : List (CountsTick Int) :=
  [{ view := countedView "" 100, full := true, now := 0 },
   { view := countedView "nas" 101, now := 100000000 },
   { view := countedView "nas" 100, now := countsInterval }]

/-- The mirror keeps the 101 the delta carried: the frame finds 100 at its baseline. -/
theorem countsStream_rescrubbed : ¬ ∀ ticks : List (CountsTick Int),
    (∀ t ∈ ticks, t.view.Distinct) → ticks.head?.map (fun t => t.full) = some true →
    (ticks.map fun t => t.now).Pairwise (· ≤ ·) →
    Run.Guarded CountsState.tick CountsState.FrameCurrent ({} : CountsState Int) ticks := by
  intro h
  exact absurd (h rescrubbedTicks (by decide) (by decide) (by decide)) (by decide)

end Etherchimp
