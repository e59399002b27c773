import Etherchimp.Proof.LayoutModes
import Etherchimp.Proof.Solar
import Etherchimp.Server.Tick

/-!
# Raw clients and the idle gate

The gate asks the engine of a raw client whether it has settled, and nothing ever
steps that engine in raw mode. A client's own engine is stepped when a stored
capture is shown to it, so what the gate reads is how far these steps came before
the client switched to raw mode.

`Replayed` is that reading as an invariant: the engine is the one its recorded
steps make of a new engine. With the other reasons to stay awake gone, the hub
idles exactly when these steps have settled the layout mode of every raw client.
A client that was shown no capture has no steps, and keeps the hub awake for good.
-/

namespace Etherchimp

open Panic LayoutEngine

section Raw

variable {F : Type} [FloatMath F] [RuneCase]

/-! ## What a client's engine has been through -/

/-- A new engine after some steps. -/
def engineAfter (rng : Nat → F) (steps : List (EngineStep F)) : LayoutEngine F :=
  steps.foldl (fun le s => s.apply le) (newLayoutEngine rng)

theorem engineAfter_concat (rng : Nat → F) (steps : List (EngineStep F)) (s : EngineStep F) :
    engineAfter rng (steps ++ [s]) = s.apply (engineAfter rng steps) := by
  unfold engineAfter
  rw [List.foldl_append]
  rfl

/-- A step, as the step of one mode. -/
theorem EngineStep.apply_eq (s : EngineStep F) :
    ∃ go shown args, ∀ le, s.apply le = stepMode go shown args le s.mode := by
  obtain ⟨go, shown, args, h⟩ := s.isStep
  exact ⟨go, shown, args, fun le => congrFun h le⟩

omit [FloatMath F] [RuneCase] in
theorem isSettled_congr {le le' : LayoutEngine F} {mode : String}
    (h : le'.settled.lookup mode = le.settled.lookup mode) :
    le'.isSettled mode = le.isSettled mode := by
  unfold isSettled
  rw [h]

/-- What a step does to the flag of a computed mode: it raises its own, and no other. -/
structure Flags (le le' : LayoutEngine F) (mode mode' : String) : Prop where
  frozen : le'.frozen = ∅
  own : mode = mode' → le'.isSettled mode = true
  other : mode ≠ mode' → le'.isSettled mode = le.isSettled mode

omit [FloatMath F] [RuneCase] in
/-- A computed layout stores the flag of its mode. -/
theorem flags_of_insert {le le' : LayoutEngine F} {mode mode' : String} (hfro : le'.frozen = ∅)
    (hset : le'.settled = le.settled.insert mode' true) : Flags le le' mode mode' where
  frozen := hfro
  own h := h ▸ settled_of_insert hset
  other h := isSettled_congr (by rw [hset, AList.lookup_insert_ne h])

omit [RuneCase] in
/-- A relaxed layout stores no flag of a computed mode. -/
theorem flags_of_force {le le' : LayoutEngine F} (raw : RawSnapshot)
    (pins : KeyedMap String (Vec F)) (radii : Option (KeyedMap String F))
    (anchors : Option (KeyedMap String (Vec F))) {mode mode' key : String} (burst : Bool)
    (hfro : le'.frozen = ∅) (hset : le'.settled.lookup mode = le.settled.lookup mode)
    (hkey : mode ≠ key) (hne : mode ≠ mode') :
    Flags le (le'.stepForce raw pins radii anchors key burst) mode mode' where
  frozen := (stepForce_frozen ..).trans hfro
  own h := absurd h hne
  other _ :=
    isSettled_congr ((stepForce_frame le' raw pins radii anchors burst hkey).2.trans hset)

theorem stepMode_flags (go : Runtime) (raw : RawSnapshot) (args : StepArgs F) {le : LayoutEngine F}
    {mode : String} (mode' : String) (hfro : le.frozen = ∅) (hmode : mode ∈ computedModes) :
    Flags le (stepMode go raw args le mode') mode mode' := by
  have hopen : (le.frozen.lookup mode').getD false = false := by
    rw [hfro]
    rfl
  have hforce : mode ≠ "force" := by
    rintro rfl
    exact absurd hmode (by decide)
  have hgravity : mode ≠ "gravity" := by
    rintro rfl
    exact absurd hmode (by decide)
  unfold stepMode
  rw [hopen, if_neg Bool.false_ne_true]
  split
  · -- circular
    unfold layoutCircular
    dsimp only
    split
    · exact flags_of_insert hfro rfl
    · exact flags_of_insert hfro rfl
  · -- gravity
    split
    · exact ⟨hfro, fun h => absurd h hgravity, fun _ => rfl⟩
    · unfold stepGravityIslands
      dsimp only
      split
      · exact flags_of_force raw _ _ _ false hfro rfl hgravity hgravity
      · exact flags_of_force raw _ _ _ false hfro rfl hgravity hgravity
  · -- hierarchical
    unfold layoutHierarchical
    dsimp only
    split
    · exact flags_of_insert hfro rfl
    · exact flags_of_insert hfro rfl
  · -- subnet
    unfold layoutSubnet
    dsimp only
    split
    · exact flags_of_insert hfro rfl
    · exact flags_of_insert hfro rfl
  · -- solar
    unfold layoutSolar
    dsimp only
    split
    · exact flags_of_insert hfro rfl
    · exact flags_of_insert hfro rfl
  · -- force, and anything unknown
    rename_i hcircular _ hhier hsubnet hsolar
    have hne : mode ≠ mode' := by
      rintro rfl
      simp only [computedModes, List.mem_cons, List.not_mem_nil, or_false] at hmode
      rcases hmode with h | h | h | h
      · exact hcircular h
      · exact hhier h
      · exact hsubnet h
      · exact hsolar h
    obtain ⟨le', -, hfro', hset, ⟨hskip, -, -⟩ | ⟨burst, hrun⟩⟩ :=
      le.stepDefault_cases raw mode' args.pins args.radii
    · rw [hskip]
      exact ⟨hfro'.trans hfro, fun h => absurd h hne, fun _ => isSettled_congr (hset mode hforce)⟩
    · rw [hrun]
      exact flags_of_force raw _ _ _ burst (hfro'.trans hfro) (hset mode hforce) hforce hne

/-- A computed mode has settled when the engine was stepped in it, in whatever order. -/
theorem engineAfter_flags (rng : Nat → F) {mode : String} (hmode : mode ∈ computedModes)
    (steps : List (EngineStep F)) :
    (engineAfter rng steps).frozen = ∅ ∧
      ((engineAfter rng steps).isSettled mode = true ↔ ∃ s ∈ steps, s.mode = mode) := by
  induction steps using List.reverseRecOn with
  | nil => exact ⟨rfl, fun h => absurd h Bool.false_ne_true, fun ⟨_, hs, _⟩ => nomatch hs⟩
  | append_singleton steps s ih =>
    obtain ⟨hfro, hsettled⟩ := ih
    obtain ⟨go, shown, args, happly⟩ := s.apply_eq
    rw [engineAfter_concat, happly]
    have hflags := stepMode_flags go shown args s.mode hfro hmode
    refine ⟨hflags.frozen, ?_⟩
    by_cases hs : mode = s.mode
    · have hmem : s ∈ steps ++ [s] := List.mem_append_right steps (List.mem_singleton_self s)
      exact iff_of_true (hflags.own hs) ⟨s, hmem, hs.symm⟩
    · rw [hflags.other hs, hsettled]
      refine ⟨fun ⟨x, hx, hm⟩ => ⟨x, List.mem_append_left [s] hx, hm⟩, fun ⟨x, hx, hm⟩ => ?_⟩
      rcases List.mem_append.mp hx with hx | hx
      · exact ⟨x, hx, hm⟩
      · exact absurd (List.mem_singleton.mp hx ▸ hm).symm hs

/-! ## The engines along a run -/

namespace TickHub

/-- Every client's own engine is what its recorded steps make of a new one. -/
def Replayed (rng : Nat → F) (h : TickHub F) : Prop :=
  ∀ id, h.views.engines (.own id) = engineAfter rng (h.ownSteps id)

theorem start_replayed (cfg : Nat → ViewConfig) (rng : Nat → F) :
    (start cfg rng).Replayed rng := fun _ => rfl

/-- A step that changes neither the engines nor their record. -/
theorem Replayed.congr {rng : Nat → F} {h h' : TickHub F} (hr : h.Replayed rng)
    (hviews : h'.views.engines = h.views.engines) (hsteps : h'.ownSteps = h.ownSteps) :
    h'.Replayed rng := by
  intro id
  rw [hviews, hsteps]
  exact hr id

theorem call_engines (h : TickHub F) (cfg : ViewConfig) (c : BuildCall EngineRef F)
    (e : EngineRef) : (h.views.call (fun _ => cfg) c).engines e
      = if e = c.engine then (engineStep cfg c (h.views.input c)).apply (h.views.engines c.engine)
        else h.views.engines e := rfl

theorem Replayed.build {rng : Nat → F} {h : TickHub F} (hr : h.Replayed rng) (cfg : ViewConfig)
    (c : BuildCall EngineRef F) : (h.build cfg c).2.Replayed rng := by
  intro id
  unfold TickHub.build
  dsimp only
  rw [call_engines]
  cases hc : c.engine with
  | own id' =>
    dsimp only
    by_cases hid : id = id'
    · subst hid
      rw [if_pos rfl, Function.update_self, engineAfter_concat, hr id]
    · rw [if_neg (fun h => hid (EngineRef.own.inj h)), Function.update_of_ne hid]
      exact hr id
  | shared n =>
    dsimp only
    rw [if_neg (by exact nofun)]
    exact hr id

theorem Replayed.sharedEngineFor {rng : Nat → F} {h : TickHub F} (hr : h.Replayed rng)
    (env : TickEnv F) (key : String) : (sharedEngineFor rng env h key).2.Replayed rng := by
  unfold TickHub.sharedEngineFor
  split
  · exact hr.congr rfl rfl
  · intro id
    dsimp only
    rw [if_neg (by exact nofun)]
    exact hr id

theorem Replayed.viewFor {rng : Nat → F} {s : Serving F} (hr : s.1.Replayed rng) (env : TickEnv F)
    (vlanByIP : KeyedMap String UInt16) (id : Nat) :
    (viewFor rng env vlanByIP s id).2.1.Replayed rng := by
  obtain ⟨h, bucketViews⟩ := s
  unfold TickHub.viewFor
  dsimp only
  split
  · exact hr
  · split
    · exact hr.build _ _
    · split
      · exact hr
      · exact (hr.sharedEngineFor env _).build _ _

theorem Replayed.serveClient {rng : Nat → F} {s : Serving F} (hr : s.1.Replayed rng)
    (env : TickEnv F) (vlanByIP : KeyedMap String UInt16) (flows : List TrafficFlow) (id : Nat) :
    Leaves (serveClient rng env vlanByIP flows s id) fun s' => s'.1.Replayed rng := by
  unfold TickHub.serveClient
  split
  · exact leaves_pure hr
  · have hview := hr.viewFor env vlanByIP id
    exact leaves_bind fun hub _ => leaves_pure (hview.congr rfl rfl)

theorem Replayed.tick {rng : Nat → F} {h : TickHub F} (hr : h.Replayed rng) (env : TickEnv F) :
    Leaves (h.tick rng env) fun h' => h'.Replayed rng := by
  unfold TickHub.tick
  split
  · exact leaves_pure hr
  · split
    · exact leaves_pure hr
    · dsimp only
      split
      · exact leaves_pure (hr.congr rfl rfl)
      · refine Leaves.bind (Leaves.foldlM (P := fun s : Serving F => s.1.Replayed rng)
          (fun s id hs => hs.serveClient env _ _ id) _ (hr.congr rfl rfl)) ?_
        exact fun s hs => leaves_pure (hs.congr rfl rfl)

theorem Replayed.step {rng : Nat → F} {h : TickHub F} (hr : h.Replayed rng) (e : Event F) :
    Leaves (h.step rng e) fun h' => h'.Replayed rng := by
  cases e with
  | tick env => exact hr.tick env
  | graph op => exact leaves_pure (hr.congr rfl rfl)
  | register | unregister | resyncAll | control | drain =>
    exact leaves_bind fun hub _ => leaves_pure (hr.congr rfl rfl)

theorem run_replayed (cfg : Nat → ViewConfig) (rng : Nat → F) (l : List (Event F)) :
    Leaves (run cfg rng l) fun h => h.Replayed rng :=
  Leaves.foldlM (fun _ e hr => hr.step e) l (start_replayed cfg rng)

/-! ## The gate -/

/-- Every client is raw, and nothing but a layout can keep the hub awake. -/
structure RawRest (h : TickHub F) : Prop where
  raw : ∀ id ∈ h.hub.clients, (h.hub.conn id).cfg.raw = true
  clean : h.graphMgr.dirty = false
  served : h.anyNeedsFull = false
  built : h.anyTimelineDirty = false

/-- The idle return drains nothing and builds nothing. -/
theorem tick_of_idles {h : TickHub F} (hi : h.idles = true) (rng : Nat → F) (env : TickEnv F) :
    h.tick rng env = .ok h := by
  unfold tick
  by_cases hnobody : h.hub.clients.keys = []
  · rw [if_pos hnobody]
    rfl
  · rw [if_neg hnobody, if_pos hi]
    rfl

theorem anyClient_eq_false {h : TickHub F} {p : Nat → Bool} :
    h.anyClient p = false ↔ ∀ id ∈ h.hub.clients, p id = false := by
  unfold anyClient
  rw [List.any_eq_false]
  simp only [AList.mem_keys, Bool.not_eq_true]

/-- A raw client waits for its own engine. -/
theorem layoutBusy_raw {h : TickHub F} {id : Nat} (hraw : (h.hub.conn id).cfg.raw = true) :
    h.layoutBusy id = false
      ↔ (h.views.engines (.own id)).isSettled (h.hub.conn id).cfg.layoutMode = true := by
  unfold layoutBusy Client.snapshotCfg
  dsimp only
  rw [hraw, Bool.true_or, if_pos rfl]
  exact unsettled_singleton _ _

/--
**Raw clients let the hub idle exactly when their own engines have settled.**

With the graph clean and every client served, a tick takes the idle return if and
only if, for every client, the steps its own engine made for stored captures have
settled the layout mode the client is in. Raw mode itself makes none of them.
-/
theorem rawIdle_iff (cfg : Nat → ViewConfig) (rng : Nat → F) (l : List (Event F)) (h : TickHub F)
    (hrun : run cfg rng l = .ok h) (hrest : h.RawRest) :
    (h.idles = true ∧ ∀ env, h.tick rng env = .ok h) ↔
      ∀ id ∈ h.hub.clients,
        (engineAfter rng (h.ownSteps id)).isSettled (h.hub.conn id).cfg.layoutMode = true := by
  have hreplayed := run_replayed cfg rng l h hrun
  have hidle : h.idles = true ↔ h.anyLayoutBusy = false := by
    unfold idles
    rw [hrest.clean, hrest.served, hrest.built]
    simp
  have hgate : h.idles = true ↔ ∀ id ∈ h.hub.clients,
      (engineAfter rng (h.ownSteps id)).isSettled (h.hub.conn id).cfg.layoutMode = true := by
    rw [hidle, anyLayoutBusy, anyClient_eq_false]
    refine forall₂_congr fun id hid => ?_
    rw [layoutBusy_raw (hrest.raw id hid), hreplayed id]
  exact ⟨fun hi => hgate.mp hi.1, fun hs => ⟨hgate.mpr hs, tick_of_idles (hgate.mpr hs) rng⟩⟩

/-- In a computed layout mode, that is when a capture was shown to the client in that mode. -/
theorem rawIdle_computed {rng : Nat → F} {h : TickHub F} {id : Nat}
    (hmode : (h.hub.conn id).cfg.layoutMode ∈ computedModes) :
    (engineAfter rng (h.ownSteps id)).isSettled (h.hub.conn id).cfg.layoutMode = true ↔
      ∃ s ∈ h.ownSteps id, s.mode = (h.hub.conn id).cfg.layoutMode :=
  (engineAfter_flags rng hmode (h.ownSteps id)).2

end TickHub

end Raw

/-! ## A raw client with a capture behind it, and one without -/

namespace TickHub

def isRawFrame : OutMsg Int → Bool
  | .rawFrame => true
  | _ => false

/-- A tick over no traffic. -/
def plainTick (now : Int) : Event Int :=
  .tick { go := Runtime.stable, now := now, usedAt := fun _ => now }

def defaultMode (_ : Nat) : ViewConfig := {}

/-- The client scrubs a capture in a circle, and then asks for the raw topology. -/
def scrubbedThenRaw : List (Event Int) :=
  [.register 0, .control 0 (.setLayout "circular"), .control 0 (.setTimeline 1 5 60),
    plainTick 1000000000000, .control 0 (.setViewMode "raw"), plainTick 2000000000000]

/-- The client asks for the raw topology from the start. -/
def rawFromStart : List (Event Int) :=
  [.register 0, .control 0 (.setViewMode "raw"), plainTick 1000000000000]

/-- The clients, whether client 0 is raw and has a raw frame queued, and what keeps a tick up. -/
def glance (h : TickHub Int) : List Nat × (Bool × Bool) × Bool × Bool × Bool :=
  (h.hub.clients.keys, ((h.hub.conn 0).cfg.raw, (h.hub.chan 0).queue.any isRawFrame),
    h.graphMgr.dirty, h.anyNeedsFull, h.anyTimelineDirty)

theorem onlyClient {h : TickHub Int} (hkeys : h.hub.clients.keys = [0]) {id : Nat}
    (hid : id ∈ h.hub.clients) : id = 0 := by
  rw [AList.mem_keys, hkeys] at hid
  exact List.mem_singleton.mp hid

theorem rawRest_of_glance {h : TickHub Int}
    (hg : h.glance = ([0], (true, true), false, false, false)) :
    h.RawRest ∧ ∀ id ∈ h.hub.clients, (h.hub.chan id).queue.any isRawFrame = true := by
  obtain ⟨hkeys, hclient, hclean, hserved, hbuilt⟩ := by simpa only [glance, Prod.mk.injEq] using hg
  refine ⟨⟨fun id hid => ?_, hclean, hserved, hbuilt⟩, fun id hid => ?_⟩
  · rw [onlyClient hkeys hid]
    exact hclient.1
  · rw [onlyClient hkeys hid]
    exact hclient.2

theorem rawIdle_scrubbed :
    ((run defaultMode (fun _ => 0) scrubbedThenRaw).toOption.any fun h => h.idles) = true := by
  have hrest : (run defaultMode (fun _ => 0) scrubbedThenRaw).toOption.map glance
      = some ([0], (true, true), false, false, false) := by decide +kernel
  have hsteps : ((run defaultMode (fun _ => 0) scrubbedThenRaw).toOption.map fun h =>
      ((h.hub.conn 0).cfg.layoutMode, (h.ownSteps 0).map EngineStep.mode))
      = some ("circular", ["circular"]) := by decide +kernel
  cases hrun : run defaultMode (fun _ => 0) scrubbedThenRaw with
  | error e =>
    rw [hrun] at hrest
    cases hrest
  | ok h =>
    rw [hrun] at hrest hsteps
    have hg : h.glance = ([0], (true, true), false, false, false) := Option.some.inj hrest
    obtain ⟨hmode, hmodes⟩ := Prod.mk.inj (Option.some.inj hsteps)
    refine ((rawIdle_iff defaultMode (fun _ => 0) scrubbedThenRaw h hrun
      (rawRest_of_glance hg).1).mpr fun id hid => ?_).1
    obtain rfl := onlyClient (congrArg Prod.fst hg) hid
    have hcomputed : (h.hub.conn 0).cfg.layoutMode ∈ computedModes := by
      rw [hmode]
      decide
    rw [rawIdle_computed hcomputed, hmode]
    have hmem : "circular" ∈ (h.ownSteps 0).map EngineStep.mode := by
      rw [hmodes]
      exact List.mem_singleton_self _
    exact List.mem_map.mp hmem

/-- With a frame sent and nothing to do, the hub stays awake for a client that was always raw. -/
theorem rawIdle_fromStart : ¬ ∀ h, run defaultMode (fun _ => 0) rawFromStart = .ok h → h.RawRest →
    (∀ id ∈ h.hub.clients, (h.hub.chan id).queue.any isRawFrame = true) → h.idles = true := by
  intro hall
  have hrest : (run defaultMode (fun _ => 0) rawFromStart).toOption.map glance
      = some ([0], (true, true), false, false, false) := by decide +kernel
  have hawake : ((run defaultMode (fun _ => 0) rawFromStart).toOption.map fun h => h.idles)
      = some false := by decide +kernel
  cases hrun : run defaultMode (fun _ => 0) rawFromStart with
  | error e =>
    rw [hrun] at hrest
    cases hrest
  | ok h =>
    rw [hrun] at hrest hawake
    obtain ⟨hquiet, hframe⟩ := rawRest_of_glance (Option.some.inj hrest)
    have hidle := hall h hrun hquiet hframe
    have hno : h.idles = false := Option.some.inj hawake
    rw [hno] at hidle
    cases hidle

end TickHub

end Etherchimp
