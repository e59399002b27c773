import Etherchimp.Graph.ViewStates
import Etherchimp.Lib.Run

/-!
# Hysteresis is per client while the table has room

The flag under an engine is what the engine's last call did, because a call writes only
under its own engine. That ends when a lookup empties the table. It does so at 64 entries
even if the engine asked for is one of them, so 64 clients are one too many.
-/

namespace Etherchimp

variable {ι : Type} [DecidableEq ι]

/-! ## What is remembered and what was done -/

/-- Whether the engine's last call aggregated, false before its first. -/
def lastOutcome (log : List (ι × Bool)) (e : ι) : Bool :=
  ((log.filter fun r => r.1 = e).getLast?.map Prod.snd).getD false

theorem lastOutcome_append_self (log : List (ι × Bool)) (e : ι) (b : Bool) :
    lastOutcome (log ++ [(e, b)]) e = b := by
  simp [lastOutcome, List.filter_append]

theorem lastOutcome_append_other (log : List (ι × Bool)) {e e' : ι} (h : e ≠ e') (b : Bool) :
    lastOutcome (log ++ [(e, b)]) e' = lastOutcome log e' := by
  simp [lastOutcome, List.filter_append, h]

/-- A fixed config: zoomed half in, laid out by force, with a threshold of its own. -/
structure MidForce (cfg : ViewConfig) : Prop where
  zoom : cfg.zoomBand = "mid"
  mode : cfg.layoutMode = "force"
  threshold : 1 ≤ cfg.aggregateThreshold

theorem MidForce.threshold_eq {cfg : ViewConfig} (h : MidForce cfg) :
    cfg.threshold = cfg.aggregateThreshold := by
  have hpos : ¬ cfg.aggregateThreshold ≤ 0 := by have := h.threshold; omega
  have hfar : ¬ ("mid" = "far") := by decide
  have hnear : ¬ ("mid" = "near") := by decide
  have hsolar : ¬ ("force" = "solar") := by decide
  simp only [ViewConfig.threshold, h.zoom, h.mode, hpos, hfar, hnear, hsolar, false_and, if_false]

/-- Over the threshold, or over its floor when the last call aggregated. -/
def Hysteresis (threshold : Int) (last : Bool) (n : Nat) : Prop :=
  threshold < n ∨ (last = true ∧ reexpandFloor threshold < n)

/-- The floor is five sixths of the threshold while the product fits into an `int`. -/
theorem hysteresis_iff {threshold : Int} (hl : 0 ≤ threshold) (hu : threshold * 5 < 2 ^ 63)
    (last : Bool) (n : Nat) :
    Hysteresis threshold last n ↔ threshold < n ∨ (last = true ∧ threshold * 5 / 6 < n) := by
  unfold Hysteresis
  rw [reexpandFloor_eq hl hu]

theorem aggActive_iff {cfg : ViewConfig} (h : MidForce cfg) (vs : ViewState) (n : Nat) :
    aggActive cfg (some vs) n = true ↔ Hysteresis cfg.aggregateThreshold vs.aggregated n := by
  have hfar : ¬ ("mid" = "far") := by decide
  simp only [aggActive, h.threshold_eq, h.zoom, hfar, false_and, decide_false, Bool.or_false,
    Bool.or_eq_true, Bool.and_eq_true, decide_eq_true_eq, Option.any_some, Hysteresis]

/-! ## The table -/

section Table

variable {F : Type} [FloatMath F] [RuneCase]

namespace ViewTable

/-- A call writes what it did under its own engine. -/
theorem call_states (cfg : ι → ViewConfig) (s : ViewTable ι F) (c : BuildCall ι F) :
    ∃ vs : ViewState, vs.aggregated = s.aggregates cfg c ∧
      (s.call cfg c).viewStates = (viewStateFor s.viewStates c.engine).1.insert c.engine vs ∧
      (s.call cfg c).log = s.log ++ [(c.engine, s.aggregates cfg c)] := by
  let kept := (s.input c).shownNodes c.go c.raw (cfg c.engine)
  refine ⟨{ aggregated := s.aggregates cfg c, prevKept := some (idSet kept) }, rfl, ?_, ?_⟩ <;> rfl

/-- The flag the table holds for an engine. -/
def flag (viewStates : KeyedMap ι ViewState) (e : ι) : Bool :=
  ((viewStates.lookup e).map ViewState.aggregated).getD false

/-- A lookup finds the table with room for one more. -/
def HasRoom (s : ViewTable ι F) : Prop := s.viewStates.entries.length < maxViewStates

omit [FloatMath F] [RuneCase] in
theorem viewStateFor_some {s : ViewTable ι F} (h : s.HasRoom) {e : ι} {vs : ViewState}
    (hl : s.viewStates.lookup e = some vs) : viewStateFor s.viewStates e = (s.viewStates, vs) := by
  simp only [viewStateFor, if_neg (not_le.mpr h), hl]

omit [FloatMath F] [RuneCase] in
theorem viewStateFor_none {s : ViewTable ι F} (h : s.HasRoom) {e : ι}
    (hl : s.viewStates.lookup e = none) :
    viewStateFor s.viewStates e = (s.viewStates.insert e {}, {}) := by
  simp only [viewStateFor, if_neg (not_le.mpr h), hl]

omit [FloatMath F] [RuneCase] in
/-- With room the lookup returns the engine's own state and changes no flag. -/
theorem viewStateFor_room {s : ViewTable ι F} (h : s.HasRoom) (e : ι) :
    (viewStateFor s.viewStates e).2.aggregated = flag s.viewStates e ∧
      ∀ e', flag (viewStateFor s.viewStates e).1 e' = flag s.viewStates e' := by
  cases hl : s.viewStates.lookup e with
  | some vs =>
    rw [viewStateFor_some h hl]
    exact ⟨by simp [flag, hl], fun _ => rfl⟩
  | none =>
    rw [viewStateFor_none h hl]
    refine ⟨by simp [flag, hl], fun e' => ?_⟩
    unfold flag
    rw [KeyedMap.lookup_insert_eq]
    split
    · next he => rw [he, hl]; rfl
    · rfl

omit [FloatMath F] [RuneCase] in
/-- Without room it forgets everyone. -/
theorem viewStateFor_full {s : ViewTable ι F} (h : ¬ s.HasRoom) (e : ι) :
    (viewStateFor s.viewStates e).2 = {} := by
  unfold viewStateFor
  rw [if_pos (not_lt.mp h)]
  rfl

/-- Every flag is what the engine's last call did. -/
def Remembers (s : ViewTable ι F) : Prop := ∀ e, flag s.viewStates e = lastOutcome s.log e

theorem remembers_call (cfg : ι → ViewConfig) {s : ViewTable ι F} (c : BuildCall ι F)
    (h : s.Remembers) (hroom : s.HasRoom) : (s.call cfg c).Remembers := by
  obtain ⟨vs, hvs, hstates, hlog⟩ := call_states cfg s c
  intro e
  unfold flag
  rw [hstates, hlog, KeyedMap.lookup_insert_eq]
  by_cases he : e = c.engine
  · rw [if_pos he, he, lastOutcome_append_self, ← hvs]
    rfl
  · rw [if_neg he, lastOutcome_append_other _ (Ne.symm he), ← h e]
    exact (viewStateFor_room hroom c.engine).2 e

omit [FloatMath F] [RuneCase] in
/-- What a call does, by the state the lookup returns. -/
theorem aggregates_lookup {cfg : ι → ViewConfig} (hcfg : ∀ e, MidForce (cfg e)) (s : ViewTable ι F)
    (c : BuildCall ι F) :
    s.aggregates cfg c = true ↔ Hysteresis (cfg c.engine).aggregateThreshold
      (viewStateFor s.viewStates c.engine).2.aggregated (filtered cfg c).length :=
  aggActive_iff (hcfg c.engine) _ _

omit [FloatMath F] [RuneCase] in
/-- A call with room is decided by its engine's last call. -/
theorem aggregates_room {cfg : ι → ViewConfig} (hcfg : ∀ e, MidForce (cfg e)) {s : ViewTable ι F}
    (c : BuildCall ι F) (h : s.Remembers) (hroom : s.HasRoom) :
    s.aggregates cfg c = true ↔ Hysteresis (cfg c.engine).aggregateThreshold
      (lastOutcome s.log c.engine) (filtered cfg c).length := by
  rw [aggregates_lookup hcfg, (viewStateFor_room hroom c.engine).1, h c.engine]

omit [FloatMath F] [RuneCase] in
/-- A call that finds the table full is decided by the threshold alone. -/
theorem aggregates_full {cfg : ι → ViewConfig} (hcfg : ∀ e, MidForce (cfg e)) {s : ViewTable ι F}
    (c : BuildCall ι F) (hroom : ¬ s.HasRoom) :
    s.aggregates cfg c = true ↔
      (cfg c.engine).aggregateThreshold < (filtered cfg c).length := by
  rw [aggregates_lookup hcfg, viewStateFor_full hroom]
  simp [Hysteresis]

/-! ## Runs -/

/-- Engines nothing was built on yet, and an empty table. -/
def start (engines : ι → LayoutEngine F) : ViewTable ι F := { engines := engines }

/-- The table after some calls. -/
def after (cfg : ι → ViewConfig) (engines : ι → LayoutEngine F) (l : List (BuildCall ι F)) :
    ViewTable ι F :=
  Run.exec (fun s c => s.call cfg c) (start engines) l

/-- Each call of a run is decided by its nodes and the last call on its own engine. -/
def PerClient (cfg : ι → ViewConfig) (engines : ι → LayoutEngine F) (l : List (BuildCall ι F)) :
    Prop :=
  ∀ l₁ c l₂, l = l₁ ++ c :: l₂ →
    ((after cfg engines l₁).aggregates cfg c = true ↔
      Hysteresis (cfg c.engine).aggregateThreshold
        (lastOutcome (after cfg engines l₁).log c.engine) (filtered cfg c).length)

/-- The number of distinct engines of some calls. -/
def engineCount (l : List (BuildCall ι F)) : Nat := (l.map BuildCall.engine).dedup.length

/-- Hysteresis is per client in the runs whose calls all find room in the table. -/
theorem perClient_of_room {cfg : ι → ViewConfig} (hcfg : ∀ e, MidForce (cfg e))
    (engines : ι → LayoutEngine F) {l : List (BuildCall ι F)}
    (hroom : Run.Guarded (fun s c => s.call cfg c) (fun s _ => s.HasRoom) (start engines) l) :
    PerClient cfg engines l := by
  rintro l₁ c l₂ rfl
  obtain ⟨h₁, hc, -⟩ := Run.guarded_append.mp hroom
  have hrem : (after cfg engines l₁).Remembers :=
    Run.invariant (P := Remembers) (fun _ => rfl) (fun s c h hr => remembers_call cfg c h hr) h₁
  exact aggregates_room hcfg c hrem hc

omit [FloatMath F] [RuneCase] in
/-- A lookup adds no engine but the one asked for. -/
theorem mem_viewStateFor {s : ViewTable ι F} {e e' : ι} (h : e' ∈ (viewStateFor s.viewStates e).1) :
    e' = e ∨ e' ∈ s.viewStates := by
  by_cases hroom : s.HasRoom
  · cases hl : s.viewStates.lookup e with
    | some vs =>
      rw [viewStateFor_some hroom hl] at h
      exact .inr h
    | none =>
      rw [viewStateFor_none hroom hl] at h
      exact (AList.mem_insert _).mp h
  · have hnew : (viewStateFor s.viewStates e).1 = (∅ : KeyedMap ι ViewState).insert e {} := by
      unfold viewStateFor
      rw [if_pos (not_lt.mp hroom)]
      rfl
    rw [hnew] at h
    exact ((AList.mem_insert _).mp h).imp_right fun h => absurd h (AList.notMem_empty _)

theorem after_concat (cfg : ι → ViewConfig) (engines : ι → LayoutEngine F)
    (l : List (BuildCall ι F)) (c : BuildCall ι F) :
    after cfg engines (l ++ [c]) = (after cfg engines l).call cfg c :=
  Run.exec_concat _ _ _

/-- An engine in the table was called. -/
theorem mem_after {cfg : ι → ViewConfig} {engines : ι → LayoutEngine F}
    (l : List (BuildCall ι F)) : ∀ e ∈ (after cfg engines l).viewStates, e ∈ l.map BuildCall.engine := by
  induction l using List.reverseRecOn with
  | nil => exact fun e he => absurd he (AList.notMem_empty e)
  | append_singleton l c ih =>
    intro e he
    obtain ⟨vs, -, hstates, -⟩ := call_states cfg (after cfg engines l) c
    rw [after_concat, hstates, AList.mem_insert] at he
    rw [List.map_append, List.mem_append]
    rcases he with rfl | he
    · exact .inr (List.mem_singleton.mpr rfl)
    · rcases mem_viewStateFor he with rfl | he
      · exact .inr (List.mem_singleton.mpr rfl)
      · exact .inl (ih e he)

/-- The table holds no more engines than were called. -/
theorem length_after_le (cfg : ι → ViewConfig) (engines : ι → LayoutEngine F)
    (l : List (BuildCall ι F)) :
    (after cfg engines l).viewStates.entries.length ≤ engineCount l := by
  have hsub : (after cfg engines l).viewStates.keys ⊆ (l.map BuildCall.engine).dedup :=
    fun e he => List.mem_dedup.mpr (mem_after l e (AList.mem_keys.mpr he))
  have hle := (List.Nodup.subperm (AList.keys_nodup _) hsub).length_le
  rwa [AList.keys, List.keys, List.length_map] at hle

/-- Fewer than 64 clients always find room. -/
theorem guarded_of_fewEngines (cfg : ι → ViewConfig) (engines : ι → LayoutEngine F) :
    ∀ {l : List (BuildCall ι F)}, engineCount l < maxViewStates →
      Run.Guarded (fun s c => s.call cfg c) (fun s _ => s.HasRoom) (start engines) l := by
  intro l
  induction l using List.reverseRecOn with
  | nil => exact fun _ => trivial
  | append_singleton l c ih =>
    intro hl
    have hle : engineCount l ≤ engineCount (l ++ [c]) := by
      refine (List.Nodup.subperm (List.nodup_dedup _) fun e he => ?_).length_le
      rw [List.mem_dedup, List.map_append]
      exact List.mem_append_left _ (List.mem_dedup.mp he)
    refine Run.guarded_append.mpr ⟨ih (by omega), ?_, trivial⟩
    have := length_after_le cfg engines l
    show (after cfg engines l).viewStates.entries.length < maxViewStates
    omega

/-- With fewer than 64 clients hysteresis is per client, whatever the order of their calls. -/
theorem perClient_of_fewEngines {cfg : ι → ViewConfig} (hcfg : ∀ e, MidForce (cfg e))
    (engines : ι → LayoutEngine F) {l : List (BuildCall ι F)}
    (hl : engineCount l < maxViewStates) : PerClient cfg engines l :=
  perClient_of_room hcfg engines (guarded_of_fewEngines cfg engines hl)

/-! ## The table fills up -/

/-- Calls on distinct engines fill the table one by one. -/
theorem length_after_fresh (cfg : ι → ViewConfig) (engines : ι → LayoutEngine F)
    (l : List (BuildCall ι F)) (hn : (l.map BuildCall.engine).Nodup) (hl : l.length ≤ maxViewStates) :
    (after cfg engines l).viewStates.entries.length = l.length := by
  induction l using List.reverseRecOn with
  | nil => rfl
  | append_singleton l c ih =>
    rw [List.map_append, List.nodup_append'] at hn
    rw [List.length_append, List.length_singleton] at hl ⊢
    have hlen := ih hn.1 (by omega)
    have hroom : (after cfg engines l).HasRoom := by
      show (after cfg engines l).viewStates.entries.length < maxViewStates
      omega
    have hnew : c.engine ∉ (after cfg engines l).viewStates := fun he =>
      hn.2.2 (mem_after l _ he) (List.mem_singleton.mpr rfl)
    have hnone : (after cfg engines l).viewStates.lookup c.engine = none :=
      AList.lookup_eq_none.mpr hnew
    obtain ⟨vs, -, hstates, -⟩ := call_states cfg (after cfg engines l) c
    rw [after_concat, hstates, viewStateFor_none hroom hnone, AList.insert_insert,
      AList.entries_insert_of_notMem hnew, List.length_cons, hlen]

/-- Calls over the threshold all aggregate, whatever is remembered. -/
theorem log_after_over {cfg : ι → ViewConfig} (hcfg : ∀ e, MidForce (cfg e))
    (engines : ι → LayoutEngine F) (l : List (BuildCall ι F))
    (h : ∀ c ∈ l, (cfg c.engine).aggregateThreshold < (filtered cfg c).length) :
    (after cfg engines l).log = l.map fun c => (c.engine, true) := by
  induction l using List.reverseRecOn with
  | nil => rfl
  | append_singleton l c ih =>
    obtain ⟨_, -, -, hlog⟩ := call_states cfg (after cfg engines l) c
    have hagg : (after cfg engines l).aggregates cfg c = true :=
      (aggregates_lookup hcfg _ c).mpr (.inl (h c (by simp)))
    rw [after_concat, hlog, ih fun c hc => h c (List.mem_append_left _ hc), hagg]
    simp

end ViewTable

end Table

/-! ## One client too many -/

/-- A snapshot of so many hosts and no traffic. -/
def someHosts (n : Nat) : RawSnapshot :=
  ⟨(List.range n).map fun i =>
    { ip := i.repr, hostname := "", ips := [], packetCount := 1, byteCount := 1, lastSeen := 0,
      isGroup := false }, []⟩

def midForce : ViewConfig := { zoomBand := "mid", layoutMode := "force", aggregateThreshold := 1 }

/-- Every one of 64 clients sees two hosts. -/
def roundOfBuilds : List (BuildCall Nat Float) :=
  (List.range 64).map fun e => { go := Runtime.stable, engine := e, raw := someHosts 2 }

/-- Then the first client sees one. -/
def lastBuild : BuildCall Nat Float := { go := Runtime.stable, engine := 0, raw := someHosts 1 }

theorem midForce_ok : MidForce midForce := ⟨rfl, rfl, by decide⟩

/-- Of the 64 clients the first one's flag is gone when it is next asked for. -/
theorem perClient_fullTable : ¬ ViewTable.PerClient (fun _ => midForce)
    (fun _ => newLayoutEngine fun _ => 0) (roundOfBuilds ++ [lastBuild]) := by
  intro h
  have hcfg : ∀ e : Nat, MidForce ((fun _ => midForce) e) := fun _ => midForce_ok
  have hcall := h roundOfBuilds lastBuild [] rfl
  have hlog := ViewTable.log_after_over hcfg (fun _ => newLayoutEngine fun _ => 0) roundOfBuilds (by
    intro c hc
    obtain ⟨e, -, rfl⟩ := List.mem_map.mp hc
    exact (by decide : (1 : Int) < (survivors midForce (someHosts 2)).length))
  have hlen := ViewTable.length_after_fresh (fun _ => midForce)
    (fun _ => newLayoutEngine fun _ => 0) roundOfBuilds (by decide) (by decide)
  have hfull : ¬ (ViewTable.after (fun _ => midForce)
      (fun _ => newLayoutEngine fun _ => 0) roundOfBuilds).HasRoom := by
    show ¬ _ < maxViewStates
    rw [hlen]
    decide
  rw [ViewTable.aggregates_full hcfg lastBuild hfull, hlog] at hcall
  exact absurd (hcall.mpr (.inr (by decide))) (by decide)

/-- Three builds for two clients. -/
theorem perClient_threeBuilds : ViewTable.PerClient (fun _ => midForce)
    (fun _ => newLayoutEngine fun _ => (0 : Float))
    [{ go := Runtime.stable, engine := 0, raw := someHosts 2 },
      { go := Runtime.stable, engine := 1, raw := someHosts 0 }, lastBuild] :=
  ViewTable.perClient_of_room (fun _ => midForce_ok) _
    (ViewTable.guarded_of_fewEngines _ _ (by decide))

end Etherchimp
