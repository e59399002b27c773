import Etherchimp.Proof.NodeIDs
import Etherchimp.Server.Timeline

/-!
# When a timeline view is the window it claims to be

A cached window is handed out for its position whatever the writer has added since,
a window whose query failed is marked built like any other, and the mark is set on
the capture the client is at by then. While no step does one of these, the window
last built for a position that is not dirty is the one the database held.
-/

namespace Etherchimp

section Undisturbed

variable {ι F : Type} [DecidableEq ι] [RuneCase] {reg : Registry}

/-- The snapshot is what loading the window gives, at some clock readings. -/
def IsWindow (reg : Registry) (db : DB) (pos : TimelineWindow) (raw : RawSnapshot) : Prop :=
  ∃ clock, raw = windowSnapshot reg clock db pos

/-- Only the rows of the window matter. -/
theorem IsWindow.congr {db db' : DB} {pos : TimelineWindow} {raw : RawSnapshot}
    (h : IsWindow reg db pos raw) (hw : windowOf reg db pos = windowOf reg db' pos) :
    IsWindow reg db' pos raw := by
  obtain ⟨clock, hraw⟩ := h
  refine ⟨clock, ?_⟩
  rw [hraw]
  unfold windowSnapshot
  rw [hw]

omit [RuneCase] in
theorem cached_eq {cache : List TlCacheEntry} {pos : TimelineWindow} {e : TlCacheEntry}
    (h : cached cache pos = some e) : e ∈ cache ∧ e.position = pos := by
  unfold cached at h
  have hpos := List.find?_some h
  exact ⟨List.mem_of_find?_eq_some h, of_decide_eq_true hpos⟩

/-- A window with rows has nodes. -/
theorem windowSnapshot_nodes_ne {db : DB} {pos : TimelineWindow} (clock : Nat → Int)
    (h : (windowOf reg db pos).1 ≠ []) : (windowSnapshot reg clock db pos).nodes ≠ [] := by
  unfold windowSnapshot
  generalize windowOf reg db pos = rows at h
  obtain ⟨nodes, edges⟩ := rows
  have hrows : nodes.map StoredNode.bulk ≠ [] := fun hnil => h (List.map_eq_nil_iff.mp hnil)
  exact fun hnil => bulkLoad_nodes_ne reg newManager (edges.map StoredEdge.bulk) clock hrows
    (List.map_eq_nil_iff.mp hnil)

/-! ## What a lookup returns -/

/-- Every entry is the window it was read as. -/
def CacheSound (reg : Registry) (cache : List TlCacheEntry) : Prop :=
  ∀ e ∈ cache, IsWindow reg e.readFrom e.position e.raw

theorem CacheSound.timelineRaw {cache : List TlCacheEntry} (h : CacheSound reg cache) (db : DB)
    (pos : TimelineWindow) (ok : Bool) (clock : Nat → Int) :
    CacheSound reg (timelineRaw reg db cache pos ok clock).2 := by
  unfold Etherchimp.timelineRaw
  cases hc : cached cache pos with
  | some e =>
    intro x hx
    rcases List.mem_cons.mp hx with rfl | hx
    · exact h _ (cached_eq hc).1
    · exact h x (List.mem_of_mem_eraseP hx)
  | none =>
    cases ok with
    | true =>
      intro x hx
      rcases List.mem_cons.mp hx with rfl | hx
      · exact ⟨clock, rfl⟩
      · exact h x (List.mem_of_mem_take hx)
    | false => exact h

/-- **A lookup returns the window**, if its query succeeds or its entry still holds. -/
theorem timelineRaw_isWindow {cache : List TlCacheEntry} (h : CacheSound reg cache) {db : DB}
    {pos : TimelineWindow} {ok : Bool} {clock : Nat → Int}
    (hhit : ∀ e, cached cache pos = some e → windowOf reg e.readFrom pos = windowOf reg db pos)
    (hmiss : cached cache pos = none → ok = true) :
    IsWindow reg db pos (timelineRaw reg db cache pos ok clock).1 := by
  unfold timelineRaw
  cases hc : cached cache pos with
  | some e =>
    obtain ⟨hmem, hpos⟩ := cached_eq hc
    have hold := h e hmem
    rw [hpos] at hold
    exact hold.congr (hhit e hc)
  | none =>
    dsimp only
    rw [if_pos (hmiss hc)]
    exact ⟨clock, rfl⟩

/-! ## Timeline messages -/

omit [RuneCase] in
/-- A timeline message leaves the config alone, and what it keeps rendered was rendered before. -/
theorem applyControl_setTimeline (c : Client F) (captureID t window : Int) :
    (c.applyControl (.setTimeline captureID t window)).cfg = c.cfg
      ∧ ∀ cur, (c.applyControl (.setTimeline captureID t window)).timeline = some cur →
        1 ≤ cur.window ∧ (cur.builtWin = 0
          ∨ ∃ old, c.timeline = some old ∧ cur.rendered = old.rendered) := by
  have hpos : 1 ≤ if window ≤ 0 then 60 else window := by
    split
    · omega
    · omega
  simp only [Client.applyControl]
  by_cases h0 : captureID = 0
  · rw [if_pos h0]
    cases htl : c.timeline with
    | none =>
      rw [Option.isSome_none, if_neg Bool.false_ne_true]
      exact ⟨rfl, fun cur hcur => by rw [htl] at hcur; cases hcur⟩
    | some old =>
      rw [Option.isSome_some, if_pos rfl]
      exact ⟨rfl, nofun⟩
  · rw [if_neg h0]
    cases htl : c.timeline with
    | none =>
      refine ⟨rfl, fun cur hcur => ?_⟩
      dsimp only at hcur
      rw [Option.some.injEq] at hcur
      rw [← hcur]
      exact ⟨hpos, Or.inl rfl⟩
    | some old =>
      dsimp only
      by_cases hc : old.captureID ≠ captureID
      · rw [if_pos hc]
        refine ⟨rfl, fun cur hcur => ?_⟩
        dsimp only at hcur
        rw [Option.some.injEq] at hcur
        rw [← hcur]
        exact ⟨hpos, Or.inl rfl⟩
      · rw [if_neg hc]
        refine ⟨rfl, fun cur hcur => ?_⟩
        dsimp only at hcur
        rw [Option.some.injEq] at hcur
        rw [← hcur]
        exact ⟨hpos, Or.inr ⟨old, rfl, rfl⟩⟩

namespace TlHub

variable {s : TlHub ι F}

/--
Every client whose position is not dirty was last built the window the database
held at the time of that build.
-/
def Fresh (reg : Registry) (s : TlHub ι F) : Prop :=
  ∀ i cur, (s.clients i).timeline = some cur → (s.clients i).timelineDirty = false →
    ∃ b, s.built i = some b ∧ IsWindow reg b.builtAt cur.position b.raw

/--
A lookup that hits finds the rows as they were when the entry was read, one that
misses is answered, and the mark goes to the capture whose position was read.
-/
def Undisturbed (reg : Registry) (s : TlHub ι F) : Label ι → Prop
  | .query ok _ => ∀ i tl, s.phase = .query i tl →
      (∀ e, cached s.tlCache tl.position = some e →
        windowOf reg e.readFrom tl.position = windowOf reg s.db tl.position)
      ∧ (cached s.tlCache tl.position = none → ok = true)
  | .mark => ∀ i tl b, s.phase = .mark i tl b →
      ∀ cur, (s.clients i).timeline = some cur → cur.captureID = tl.captureID
  | _ => True

/-- What holds in every state of an undisturbed run. -/
structure Inv (reg : Registry) (s : TlHub ι F) : Prop where
  cache : CacheSound reg s.tlCache
  /-- No client is in raw mode. -/
  raw : ∀ i, (s.clients i).cfg.raw = false
  window : ∀ i cur, (s.clients i).timeline = some cur → 1 ≤ cur.window
  marking : ∀ i tl b, s.phase = .mark i tl b → IsWindow reg b.builtAt tl.position b.raw
  /-- The rendered position of a client is that of its last build, if there is one. -/
  rendered : ∀ i cur, (s.clients i).timeline = some cur →
    cur.builtWin = 0 ∨ ∃ b, s.built i = some b ∧ IsWindow reg b.builtAt cur.rendered b.raw

omit [DecidableEq ι] in
theorem inv_init (reg : Registry) (db : DB) : (connect db : TlHub ι F).Inv reg where
  cache := nofun
  raw _ := rfl
  window := nofun
  marking := nofun
  rendered := nofun

omit [DecidableEq ι] in
/-- The windows are never empty, so a position that is not dirty is the rendered one. -/
theorem Inv.fresh (h : s.Inv reg) : s.Fresh reg := by
  intro i cur hcur hclean
  have hpos := h.window i cur hcur
  have heq : cur.rendered = cur.position ∧ cur.builtWin = cur.window := by
    unfold Client.timelineDirty at hclean
    rw [hcur, Option.any_some, Bool.or_eq_false_iff, bne_eq_false_iff_eq,
      bne_eq_false_iff_eq] at hclean
    unfold TimelineState.rendered TimelineState.position
    rw [hclean.1, hclean.2]
    exact ⟨rfl, rfl⟩
  rcases h.rendered i cur hcur with h0 | hb
  · omega
  · rw [← heq.1]
    exact hb

/-! ## One step -/

theorem Inv.flush (h : s.Inv reg) (pkts : List PacketEvent) (fb : FlushBatch) :
    (s.step reg (.flush pkts fb)).Inv reg := ⟨h.cache, h.raw, h.window, h.marking, h.rendered⟩

theorem Inv.scrub (h : s.Inv reg) (i : ι) (captureID t window : Int) :
    (s.step reg (.scrub i captureID t window)).Inv reg := by
  obtain ⟨hcfg, hcur⟩ := applyControl_setTimeline (s.clients i) captureID t window
  refine ⟨h.cache, fun j => ?_, fun j cur => ?_, h.marking, fun j cur => ?_⟩
  · by_cases hj : j = i
    · subst hj
      simp only [step, setClient, Function.update_self]
      rw [hcfg]
      exact h.raw j
    · simp only [step, setClient, Function.update_of_ne hj]
      exact h.raw j
  · by_cases hj : j = i
    · subst hj
      simp only [step, setClient, Function.update_self]
      exact fun hc => (hcur cur hc).1
    · simp only [step, setClient, Function.update_of_ne hj]
      exact h.window j cur
  · by_cases hj : j = i
    · subst hj
      simp only [step, setClient, Function.update_self]
      intro hc
      rcases (hcur cur hc).2 with h0 | ⟨old, hold, heq⟩
      · exact Or.inl h0
      · rw [heq]
        exact (h.rendered j old hold).imp_left fun h0 => (congrArg TimelineWindow.window heq).trans h0
    · simp only [step, setClient, Function.update_of_ne hj]
      exact h.rendered j cur

theorem Inv.params (h : s.Inv reg) (i : ι) : (s.step reg (.params i)).Inv reg := by
  cases hp : s.phase with
  | idle =>
    cases htl : (s.clients i).timeline with
    | some tl =>
      have hraw : (s.clients i).snapshotCfg.raw = false := h.raw i
      simp only [step, hp, Client.timelineParams, htl, hraw]
      rw [if_neg Bool.false_ne_true]
      exact ⟨h.cache, h.raw, h.window, nofun, h.rendered⟩
    | none =>
      simp only [step, hp, Client.timelineParams, htl]
      refine ⟨h.cache, h.raw, h.window, by rw [← hp]; exact h.marking, fun j cur hcur => ?_⟩
      by_cases hj : j = i
      · rw [hj, htl] at hcur
        cases hcur
      · simp only [Function.update_of_ne hj]
        exact h.rendered j cur hcur
  | _ =>
    simp only [step, hp]
    exact h

theorem Inv.query (h : s.Inv reg) {ok : Bool} {clock : Nat → Int}
    (hok : Undisturbed reg s (.query ok clock)) : (s.step reg (.query ok clock)).Inv reg := by
  cases hp : s.phase with
  | query i tl =>
    simp only [step, hp]
    refine ⟨h.cache.timelineRaw s.db tl.position ok clock, h.raw, h.window, ?_, h.rendered⟩
    intro j tl' b hb
    obtain ⟨hhit, hmiss⟩ := hok i tl hp
    cases hb
    exact timelineRaw_isWindow h.cache hhit hmiss
  | _ =>
    simp only [step, hp]
    exact h

theorem Inv.mark (h : s.Inv reg) (hok : Undisturbed reg s (.mark : Label ι)) :
    (s.step reg .mark).Inv reg := by
  cases hp : s.phase with
  | mark i tl b =>
    have hb := h.marking i tl b hp
    have hsame := hok i tl b hp
    -- the client's mark, and everything else of it
    have hmarked : ∀ cur, ((s.clients i).markTimelineBuilt tl.t tl.window).timeline = some cur →
        ∃ old, (s.clients i).timeline = some old
          ∧ cur = { old with built := tl.t, builtWin := tl.window } := by
      intro cur hcur
      obtain ⟨old, hold, heq⟩ := Option.map_eq_some_iff.mp hcur
      exact ⟨old, hold, heq.symm⟩
    simp only [step, hp]
    refine ⟨h.cache, fun j => ?_, fun j cur => ?_, nofun, fun j cur => ?_⟩
    · by_cases hj : j = i
      · subst hj
        simp only [setClient, Function.update_self]
        exact h.raw j
      · simp only [setClient, Function.update_of_ne hj]
        exact h.raw j
    · by_cases hj : j = i
      · subst hj
        simp only [setClient, Function.update_self]
        intro hcur
        obtain ⟨old, hold, rfl⟩ := hmarked cur hcur
        exact h.window j old hold
      · simp only [setClient, Function.update_of_ne hj]
        exact h.window j cur
    · by_cases hj : j = i
      · subst hj
        simp only [setClient, Function.update_self]
        intro hcur
        obtain ⟨old, hold, rfl⟩ := hmarked cur hcur
        refine Or.inr ⟨b, rfl, ?_⟩
        -- the capture is the one that was read, so the mark is the position built
        have hpos : TimelineState.rendered { old with built := tl.t, builtWin := tl.window }
            = tl.position := by
          unfold TimelineState.rendered TimelineState.position
          rw [hsame old hold]
        rw [hpos]
        exact hb
      · simp only [setClient, Function.update_of_ne hj]
        exact h.rendered j cur
  | _ =>
    simp only [step, hp]
    exact h

variable (reg) in
theorem Inv.step (h : s.Inv reg) {a : Label ι} (hok : Undisturbed reg s a) :
    (s.step reg a).Inv reg := by
  cases a with
  | flush pkts fb => exact h.flush pkts fb
  | scrub i captureID t window => exact h.scrub i captureID t window
  | params i => exact h.params i
  | query ok clock => exact h.query hok
  | mark => exact h.mark hok

/-! ## Whole runs -/

/--
**An undisturbed run never shows a stale window**: in every state, built or being
built, a position that is not dirty was last built from the database as it was.
-/
theorem fresh_run (reg : Registry) (db : DB) {l : List (Label ι)}
    (hok : Run.Guarded (TlHub.step reg) (Undisturbed reg) (connect db : TlHub ι F) l) :
    (Run.exec (TlHub.step reg) (connect db : TlHub ι F) l).Fresh reg :=
  (Run.invariant (inv_init reg db) (fun _ _ hs ha => Inv.step reg hs ha) hok).fresh

end TlHub

end Undisturbed

namespace TlHub

/-- A capture with one packet, in the bucket at second 50. -/
def onePacketDB : DB :=
  { emptyDB with
    flowBuckets := AList.insert ⟨1, 50, "a<->b", "TCP"⟩ ⟨1, 60, 1, 0, 60, 0⟩ ∅ }

/-- The window is scrubbed to, queried, and scrubbed to again from the cache. -/
def cachedRun : List (Label Unit) :=
  [.scrub () 1 100 60, .params (), .query true fun _ => 0, .mark, .params (),
    .query true fun _ => 1, .mark]

theorem fresh_run_cached :
    (Run.exec (TlHub.step (Registry.ofList [])) (connect onePacketDB : TlHub Unit Int)
      cachedRun).Fresh (Registry.ofList []) := by
  refine fresh_run (Registry.ofList []) onePacketDB ⟨trivial, trivial, ?_, ?_, trivial, ?_, ?_, trivial⟩
  · intro i tl hp
    cases hp
    exact ⟨nofun, fun _ => rfl⟩
  · intro i tl b hp cur hcur
    cases hp
    cases hcur
    rfl
  · intro i tl hp
    cases hp
    refine ⟨fun e he => ?_, fun _ => rfl⟩
    cases he
    rfl
  · intro i tl b hp cur hcur
    cases hp
    cases hcur
    rfl

/-- The window has nodes. -/
theorem onePacketDB_nodes (clock : Nat → Int) :
    (windowSnapshot (Registry.ofList []) clock onePacketDB ⟨1, 100, 60⟩).nodes ≠ [] := by
  have hrows : (windowOf (Registry.ofList []) onePacketDB ⟨1, 100, 60⟩).1 ≠ [] := by decide
  exact windowSnapshot_nodes_ne clock hrows

/-- A query that fails is marked built all the same. -/
theorem fresh_failedQuery : ¬ ∀ (reg : Registry) (db : DB) (l : List (Label Unit)),
    (Run.exec (TlHub.step reg) (connect db : TlHub Unit Int) l).Fresh reg := by
  intro h
  obtain ⟨b, hb, clock, hraw⟩ := h (Registry.ofList []) onePacketDB
    [.scrub () 1 100 60, .params (), .query false fun _ => 0, .mark] ()
    ⟨1, 100, 60, 100, 60⟩ rfl rfl
  have hb : some (⟨{}, onePacketDB⟩ : BuiltWindow) = some b := hb
  cases hb
  exact onePacketDB_nodes clock (congrArg RawSnapshot.nodes hraw).symm

end TlHub

end Etherchimp
