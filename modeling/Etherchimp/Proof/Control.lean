import Etherchimp.Lib.Run
import Etherchimp.Server.Control

/-!
# No control message is lost

A message that changes what the client should see either raises the full flag or moves
the timeline position, and the tick never writes either of them blindly: it clears the
flag before it reads anything, and it marks the position it read. So while the flag is
down, everything the tick has read is what the client asks for, up to a position that
`timelineDirty` still tells from the rendered one.

The invariant is stated phase by phase, for a client whose flag is down. `Asks` is all
it depends on, and `applyControl_asks` says a message leaves that alone or raises the
flag.
-/

namespace Etherchimp

variable {F : Type}

/-- What a client asks for, with the stretch it counts as rendered for a timeline. -/
structure Client.Asks (c : Client F) (cfg : ViewConfig) (rendered : Option TimelineWindow) : Prop where
  cfg : c.cfg = cfg
  rendered : c.timeline.map TimelineState.rendered = rendered

/-- **A message raises the flag**, or leaves the flag, the config and the rendered mark alone. -/
theorem applyControl_asks (c : Client F) (msg : ControlMsg) :
    (c.applyControl msg).needsFull = true
      ∨ ((c.applyControl msg).needsFull = c.needsFull
        ∧ (c.applyControl msg).Asks c.cfg (c.timeline.map TimelineState.rendered)) := by
  have hsame : c.needsFull = c.needsFull ∧ c.Asks c.cfg (c.timeline.map TimelineState.rendered) :=
    ⟨rfl, rfl, rfl⟩
  cases msg with
  | setFilters hidden => exact Or.inl rfl
  | setLayout mode =>
    simp only [Client.applyControl]
    split
    · exact Or.inr hsame
    · exact Or.inl rfl
  | setAggregation threshold expanded fullExpand focus zoomBand => exact Or.inl rfl
  | resync => exact Or.inl rfl
  | setTimeline captureID t window =>
    simp only [Client.applyControl]
    cases htl : c.timeline with
    | none =>
      dsimp only
      split
      · exact Or.inr ⟨rfl, rfl, congrArg (Option.map TimelineState.rendered) htl⟩
      · exact Or.inl rfl
    | some cur =>
      dsimp only
      split
      · exact Or.inl rfl
      · split
        · exact Or.inl rfl
        · -- the scrubber moved within its capture: the mark stays where it is
          exact Or.inr ⟨rfl, rfl, rfl⟩
  | setViewMode mode =>
    simp only [Client.applyControl]
    split
    · exact Or.inl rfl
    · exact Or.inr hsame
  | malformed => exact Or.inr hsame

/-- A position that is not dirty is the rendered one. -/
theorem rendered_eq_position {c : Client F} (h : c.timelineDirty = false) :
    c.timeline.map TimelineState.rendered = c.timeline.map TimelineState.position := by
  unfold Client.timelineDirty at h
  cases htl : c.timeline with
  | none => rfl
  | some cur =>
    rw [htl, Option.any_some, Bool.or_eq_false_iff, bne_eq_false_iff_eq, bne_eq_false_iff_eq] at h
    obtain ⟨ht, hw⟩ := h
    rw [Option.map_some, Option.map_some, TimelineState.rendered, TimelineState.position, ht, hw]

/-- Marking a position renders it, in the capture the client is at. -/
theorem markTimelineBuilt_rendered {c : Client F} {cur : TimelineState} (h : c.timeline = some cur)
    (t window : Int) :
    (c.markTimelineBuilt t window).timeline.map TimelineState.rendered
      = some ⟨cur.captureID, t, window⟩ := by
  unfold Client.markTimelineBuilt
  rw [h]
  rfl

namespace TickState

/-- The build a client asks for. -/
def target (cfg : ViewConfig) (source : Option TimelineWindow) : Built :=
  if cfg.raw then .raw cfg else .view cfg source

/-- The last build is the one the client asks for. -/
def UpToDate (s : TickState F) : Prop :=
  s.built = some (target s.client.cfg (s.client.timeline.map TimelineState.position))

/-- What the tick has established so far for a client that asks for this. -/
def Established (cfg : ViewConfig) (rendered : Option TimelineWindow) (built : Option Built) :
    TickPhase → Prop
  | .idle => built = some (target cfg rendered)
  | .consumed full => full = true ∨ built = some (target cfg rendered)
  | .rawParams full | .rawMark full _ | .rawCadence full =>
      cfg.raw = true ∧ (full = true ∨ built = some (target cfg rendered))
  | .rawBuild => cfg.raw = true
  | .viewParams _ => cfg.raw = false
  | .viewMark _ tl => cfg.raw = false ∧ rendered.map TimelineWindow.captureID = some tl.captureID
  | .viewCfg _ source => cfg.raw = false ∧ rendered = source
  | .viewBuild _ source cfg' => cfg.raw = false ∧ rendered = source ∧ cfg = cfg'

/-- While the flag is down, the tick works on what the client asks for. -/
def Tracks (s : TickState F) : Prop :=
  s.client.needsFull = false →
    Established s.client.cfg (s.client.timeline.map TimelineState.rendered) s.built s.phase

/-- A raw build does not depend on the timeline. -/
theorem target_raw {cfg : ViewConfig} (h : cfg.raw = true) (source source' : Option TimelineWindow) :
    target cfg source = target cfg source' := by
  unfold target
  rw [if_pos h, if_pos h]

/-- A message keeps what is established, or raises the flag. -/
theorem Tracks.control {s : TickState F} (h : s.Tracks) (msg : ControlMsg) :
    (s.step (.control msg)).Tracks := by
  intro hdown
  rcases applyControl_asks s.client msg with hup | ⟨hflag, hasks⟩
  · rw [step, hup] at hdown
    cases hdown
  · have hdown' : s.client.needsFull = false := by rw [← hflag]; exact hdown
    have hs := h hdown'
    rw [← hasks.cfg, ← hasks.rendered] at hs
    exact hs

/-- Each critical section establishes what the next one relies on. -/
theorem Tracks.advance {s : TickState F} (h : s.Tracks) (now : Int) (nodeCount : Nat) :
    (s.advance now nodeCount).Tracks := by
  obtain ⟨c, phase, built⟩ := s
  cases phase with
  | idle =>
    -- the flag goes into the local, or it was down already
    intro _
    cases hf : c.needsFull with
    | true => exact Or.inl hf
    | false => exact Or.inr (h hf)
  | consumed full =>
    have hnext : TickState.advance ⟨c, .consumed full, built⟩ now nodeCount
        = if c.cfg.raw = true then ⟨c, .rawParams full, built⟩ else ⟨c, .viewParams full, built⟩ :=
      rfl
    rw [hnext]
    split
    · rename_i hraw
      exact fun hdown => ⟨hraw, h hdown⟩
    · rename_i hraw
      exact fun _ => Bool.eq_false_iff.mpr hraw
  | rawParams full =>
    simp only [TickState.advance, Client.timelineParams]
    cases c.timeline with
    | none => exact h
    | some tl => exact h
  | rawMark full tl =>
    intro hdown
    obtain ⟨hraw, hdone⟩ := h hdown
    exact ⟨hraw, hdone.imp_right fun hb => hb.trans (congrArg some (target_raw hraw _ _))⟩
  | rawCadence full =>
    simp only [TickState.advance]
    split
    · rename_i hskip
      -- a frame is skipped only when the flag was down
      intro hdown
      obtain ⟨-, hfull | hb⟩ := h hdown
      · exact absurd hfull hskip.1
      · exact hb
    · exact fun hdown => (h hdown).1
  | rawBuild =>
    intro hdown
    have hraw : c.cfg.raw = true := h hdown
    show some (Built.raw c.cfg) = some (target c.cfg _)
    rw [target, if_pos hraw]
  | viewParams full =>
    simp only [TickState.advance, Client.timelineParams]
    cases htl : c.timeline with
    | none => exact fun hdown => ⟨h hdown, by rw [htl]; rfl⟩
    | some tl => exact fun hdown => ⟨h hdown, by rw [htl]; rfl⟩
  | viewMark full tl =>
    intro hdown
    obtain ⟨hview, hcap⟩ := h hdown
    refine ⟨hview, ?_⟩
    cases htl : c.timeline with
    | none => rw [htl] at hcap; cases hcap
    | some cur =>
      -- same capture as the one that was read, so the mark is the position read
      have hid : cur.captureID = tl.captureID := by
        rw [htl] at hcap
        exact Option.some.inj hcap
      calc (c.markTimelineBuilt tl.t tl.window).timeline.map TimelineState.rendered
          = some ⟨cur.captureID, tl.t, tl.window⟩ := markTimelineBuilt_rendered htl ..
        _ = some tl.position := by rw [hid]; rfl
  | viewCfg full source => exact fun hdown => ⟨(h hdown).1, (h hdown).2, rfl⟩
  | viewBuild full source cfg =>
    intro hdown
    obtain ⟨hview, hsource, hcfg⟩ := h hdown
    have hbuilt : some (Built.view cfg source)
        = some (target c.cfg (c.timeline.map TimelineState.rendered)) := by
      rw [target, if_neg (Bool.eq_false_iff.mp hview), hsource, hcfg]
    exact hbuilt

/-- **Every reachable state tracks what its client asks for.** -/
theorem tracks_run (cfg : ViewConfig) (l : List Label) :
    (Run.exec step (connect (F := F) cfg) l).Tracks :=
  Run.invariant (fun h => Bool.noConfusion h)
    (fun _ a hs _ => match a with
      | .control msg => hs.control msg
      | .advance now nodeCount => hs.advance now nodeCount)
    (Run.guarded_true _ l)

/--
**Once a client is at rest, its last build is the one it asks for.** The flag is down,
the timeline position is rendered and no build is in progress.
-/
theorem control_keptAtRest (cfg : ViewConfig) (l : List Label)
    (hidle : (Run.exec step (connect (F := F) cfg) l).phase = .idle)
    (hflag : (Run.exec step (connect (F := F) cfg) l).client.needsFull = false)
    (hclean : (Run.exec step (connect (F := F) cfg) l).client.timelineDirty = false) :
    (Run.exec step (connect (F := F) cfg) l).UpToDate := by
  have htracks := tracks_run (F := F) cfg l hflag
  rw [hidle] at htracks
  rw [UpToDate, ← rendered_eq_position hclean]
  exact htracks

/-- A scrubber is replaced by another capture at the same position while the tick is between
reading the position and marking it; the next tick builds the new one. -/
def replacedCaptureRun : List Label :=
  [.control (.setTimeline 1 500 60), .advance 0 2, .advance 0 2, .advance 0 2,
    .control (.setTimeline 2 500 60), .advance 0 2, .advance 0 2, .advance 0 2]
    ++ List.replicate 6 (.advance 100000000 2)

theorem control_keptAtRest_replacedCapture :
    (Run.exec step (connect (F := Int) {}) replacedCaptureRun).UpToDate :=
  control_keptAtRest {} replacedCaptureRun rfl rfl rfl

end TickState

end Etherchimp
