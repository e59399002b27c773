import Mathlib
import Etherchimp.Lib.Streak
import Etherchimp.Proof.ForceRuns
import Etherchimp.Proof.Solar

/-!
# When bursts begin and end

The bookkeeping of bursts reads four things of a step: how many nodes there are, the
signature of the node set, the signature laid out last, and whether anything was laid
out yet. `Watch` is that bookkeeping by itself, and every step of the engine is a step
of it.

A step over no node lays nothing out and leaves the old signature, so the next step
compares its node set with an older one. Outside a burst nothing depends on it, and as
long as no step of a burst is over no node the counter is the streak.
-/

namespace Etherchimp

namespace LayoutEngine

open Streak

/-- The number of nodes in a call. -/
def ForceCall.size {F : Type} (c : ForceCall F) : Nat := c.raw.nodes.length

/-- The node set of a call. -/
def ForceCall.nodeSet {F : Type} (c : ForceCall F) : List String := sortedIDs c.raw.nodes

def ForceCall.sameSet {F : Type} (c c' : ForceCall F) : Prop := c.nodeSet = c'.nodeSet

instance {F : Type} : DecidableRel (ForceCall.sameSet (F := F)) :=
  fun c c' => inferInstanceAs (Decidable (c.nodeSet = c'.nodeSet))

theorem ForceCall.size_eq {F : Type} (c c' : ForceCall F) (h : c.sameSet c') : c.size = c'.size := by
  have hlen := congrArg List.length h
  unfold ForceCall.nodeSet sortedIDs at hlen
  simpa [ForceCall.size] using hlen

/-! ## The bookkeeping by itself -/

/-- What the burst bookkeeping reads and writes. -/
structure Watch where
  hist : List Nat
  burst : Bool
  stable : Nat
  /-- The signature laid out last. -/
  sig : UInt64
  laid : Bool
  deriving DecidableEq

/-- Record one step over `n` nodes with the signature `s`. -/
def Watch.record (w : Watch) (n : Nat) (s : UInt64) : Watch :=
  { w with
    hist := (w.hist ++ [n]).rtake burstWindowSteps
    stable := if w.laid && s == w.sig then w.stable + 1 else 0 }

/-- Begin or end a burst, and whether one ends. -/
def Watch.turn (grown : List Nat → Nat → Bool) (w : Watch) (n : Nat) : Watch × Bool :=
  if w.burst then
    if burstStableSteps ≤ w.stable then ({ w with burst := false }, true) else (w, false)
  else if grown w.hist n then ({ w with burst := true, stable := 0 }, false)
  else (w, false)

/-- Nodes are laid out under their signature; no nodes are not. -/
def Watch.layOut (w : Watch) (n : Nat) (s : UInt64) : Watch :=
  { w with sig := if n = 0 then w.sig else s, laid := true }

def Watch.next (grown : List Nat → Nat → Bool) (w : Watch) (n : Nat) (s : UInt64) : Watch :=
  (((w.record n s).turn grown n).1).layOut n s

section Engine

variable {F : Type} [FloatMath F]

/-- The bookkeeping of an engine. -/
def watch (le : LayoutEngine F) : Watch where
  hist := (le.sizeHist.lookup "force").getD []
  burst := le.inBurst
  stable := (le.stableSteps.lookup "force").getD 0
  sig := (le.sig.lookup "force").getD 0
  laid := (le.positions.lookup "force").isSome

/-- The gate is reached with the bookkeeping turned. -/
theorem watch_beforeGate (le : LayoutEngine F) (c : ForceCall F) :
    (le.beforeGate c).watch
        = ((le.watch.record c.size (nodeSetSig c.raw.nodes)).turn (burstGrowth F) c.size).1
      ∧ (le.trackBurst "force" c.raw).2.2
        = ((le.watch.record c.size (nodeSetSig c.raw.nodes)).turn (burstGrowth F) c.size).2 := by
  have hreheat : ∀ le : LayoutEngine F, le.reheatOnce.watch = le.watch := fun _ => rfl
  have hbefore : (le.beforeGate c).watch = (le.trackBurst "force" c.raw).1.watch := by
    unfold beforeGate
    dsimp only
    split
    · exact hreheat _
    · rfl
  have hrecord : (le.recordSize "force" c.raw).watch
      = le.watch.record c.size (nodeSetSig c.raw.nodes) := by
    unfold recordSize watch Watch.record inBurst
    dsimp only
    rw [AList.lookup_insert, AList.lookup_insert]
    rfl
  rw [hbefore, ← hrecord]
  unfold trackBurst
  generalize le.recordSize "force" c.raw = le₁
  unfold Watch.turn
  dsimp only
  have hburst : le₁.watch.burst = (le₁.burst.lookup "force").getD false := rfl
  have hstable : le₁.watch.stable = (le₁.stableSteps.lookup "force").getD 0 := rfl
  have hhist : le₁.watch.hist = (le₁.sizeHist.lookup "force").getD [] := rfl
  rw [hburst, hstable, hhist]
  by_cases hb : (le₁.burst.lookup "force").getD false = true
  · rw [if_pos hb, if_pos hb]
    by_cases hk : burstStableSteps ≤ (le₁.stableSteps.lookup "force").getD 0
    · rw [if_pos hk, if_pos hk]
      refine ⟨?_, rfl⟩
      unfold watch inBurst
      dsimp only
      rw [AList.lookup_insert]
      rfl
    · rw [if_neg hk, if_neg hk]
      exact ⟨rfl, rfl⟩
  · rw [if_neg hb, if_neg hb]
    have hn : c.size = c.raw.nodes.length := rfl
    rw [hn]
    by_cases hg : burstGrowth F ((le₁.sizeHist.lookup "force").getD []) c.raw.nodes.length = true
    · rw [if_pos hg, if_pos hg]
      refine ⟨?_, rfl⟩
      unfold watch inBurst
      dsimp only
      rw [AList.lookup_insert, AList.lookup_insert]
      rfl
    · rw [if_neg hg, if_neg hg]
      exact ⟨rfl, rfl⟩

/-- A relaxation lays the nodes out, if there are any, and turns nothing. -/
theorem watch_stepForce (le : LayoutEngine F) (raw : RawSnapshot) (pins : KeyedMap String (Vec F))
    (radii : Option (KeyedMap String F)) (burst : Bool) :
    (le.stepForce raw pins radii none "force" burst).watch
      = le.watch.layOut raw.nodes.length (nodeSetSig raw.nodes) := by
  unfold stepForce
  dsimp only
  rw [List.length_map]
  by_cases h0 : raw.nodes.length = 0
  · rw [if_pos h0]
    unfold watch Watch.layOut laidOut
    dsimp only
    rw [AList.lookup_insert, if_pos h0]
    rfl
  · rw [if_neg h0]
    unfold watch Watch.layOut
    dsimp only
    rw [AList.lookup_insert, AList.lookup_insert, if_neg h0]
    rfl

variable [RuneCase]

/-- **A step of the engine is a step of the bookkeeping.** -/
theorem watch_forceStep {le : LayoutEngine F} (hf : le.frozen = ∅) (c : ForceCall F) :
    (le.forceStep c).watch
      = le.watch.next (burstGrowth F) c.size (nodeSetSig c.raw.nodes) := by
  have hgate := (watch_beforeGate le c).1
  unfold Watch.next
  rw [forceStep_eq hf, ← hgate]
  by_cases hr : le.relaxes c = true
  · rw [if_pos hr]
    exact watch_stepForce ..
  · rw [if_neg hr]
    -- the gate is shut only on what is laid out already
    have hskip : (le.beforeGate c).forceCanSkip "force" c.raw c.args.pins = true := by
      unfold relaxes at hr
      rw [Bool.not_eq_true, Bool.not_eq_false'] at hr
      exact hr
    unfold forceCanSkip at hskip
    simp only [Bool.and_eq_true, beq_iff_eq] at hskip
    have hlaid : (le.beforeGate c).watch.laid = true := hskip.1.1.2
    have hsig : (le.beforeGate c).watch.sig = nodeSetSig c.raw.nodes := hskip.1.2
    unfold Watch.layOut
    rw [← hsig, ite_self, ← hlaid]

end Engine

/-! ## Growth -/

/-- So many more nodes than before count as a scan: over 25, or over ten percent and at least 10. -/
def Grown (m n : Nat) : Prop := m + 25 < n ∨ m + 10 ≤ n ∧ m < 10 * (n - m)

/-- A minimum that is higher is harder to outgrow. -/
theorem Grown.of_le {m m' n : Nat} (h : Grown m' n) (hle : m ≤ m') : Grown m n := by
  unfold Grown at *
  omega

theorem not_grown_self (n : Nat) : ¬ Grown n n := by
  unfold Grown
  omega

theorem le_foldl_min {k n : Nat} {l : List Nat} : k ≤ l.foldl Min.min n ↔ k ≤ n ∧ ∀ x ∈ l, k ≤ x := by
  induction l generalizing n with
  | nil => simp
  | cons y l ih =>
    rw [List.foldl_cons, ih, Nat.le_min, List.forall_mem_cons, and_assoc]

theorem foldl_min_mem {n : Nat} {l : List Nat} (hn : n ∈ l) : l.foldl Min.min n ∈ l := by
  have hor : ∀ (l : List Nat) (n : Nat), l.foldl Min.min n = n ∨ l.foldl Min.min n ∈ l := by
    intro l
    induction l with
    | nil => exact fun n => Or.inl rfl
    | cons y l ih =>
      intro n
      rw [List.foldl_cons]
      rcases ih (Min.min n y) with h | h
      · rcases Nat.le_total n y with hny | hny
        · rw [h, Nat.min_eq_left hny]
          exact Or.inl rfl
        · rw [h, Nat.min_eq_right hny]
          exact Or.inr List.mem_cons_self
      · exact Or.inr (List.mem_cons_of_mem y h)
  rcases hor l n with h | h
  · rw [h]
    exact hn
  · exact h

/--
What comparing with ten percent in floating point comes to for small growths: the
constant is the double next above one tenth.
-/
structure ExactTenth (F : Type) [FloatMath F] : Prop where
  iff : ∀ w g : Nat, g ≤ 25 →
    (FloatMath.lt (Float64.mul burstGrowthPct (Float64.ofInt w)) (Float64.ofInt g : F) = true
      ↔ w < 10 * g)

theorem burstGrowth_iff {F : Type} [FloatMath F] (hten : ExactTenth F) (hist : List Nat) (n : Nat) :
    burstGrowth F hist n = true ↔ Grown (hist.foldl Min.min n) n := by
  have hle : hist.foldl Min.min n ≤ n := (le_foldl_min.mp (Nat.le_refl _)).1
  unfold burstGrowth Grown burstGrowthAbs burstGrowthPctFloor
  dsimp only
  generalize hist.foldl Min.min n = m at hle
  obtain ⟨g, rfl⟩ := Nat.exists_eq_add_of_le hle
  have hg : ((m + g : Nat) : Int) - (m : Int) = (g : Int) := by omega
  rw [hg, Bool.or_eq_true, Bool.and_eq_true, decide_eq_true_eq, decide_eq_true_eq]
  by_cases hbig : 25 < g
  · exact iff_of_true (Or.inl (by omega)) (Or.inl (by omega))
  · have htenth := hten.iff m g (by omega)
    constructor
    · rintro (h | ⟨h10, hlt⟩)
      · omega
      · have hm := htenth.mp hlt
        omega
    · intro h
      exact Or.inr ⟨by omega, htenth.mpr (by omega)⟩

section Runs

variable {F : Type} {done calls : List (ForceCall F)} {c c' : ForceCall F} {w : Watch}

/-- The signature tells the node sets of the calls apart. -/
def DistinctSigs (calls : List (ForceCall F)) : Prop :=
  ∀ c ∈ calls, ∀ c' ∈ calls, nodeSetSig c.raw.nodes = nodeSetSig c'.raw.nodes → c.sameSet c'

/-- For how many calls the node set has been that of the call before. -/
def unchangedFor (done : List (ForceCall F)) : Nat := streak ForceCall.sameSet done.reverse

/-- The sizes of the last calls. -/
def recentSizes (done : List (ForceCall F)) : List Nat :=
  (done.map ForceCall.size).rtake burstWindowSteps

/-- What the bookkeeping knows after some calls. -/
structure Watched (done : List (ForceCall F)) (w : Watch) : Prop where
  hist : w.hist = recentSizes done
  /-- In a burst the counter is the streak, too short yet to end it. -/
  running : w.burst = true → w.laid = true ∧ w.stable = unchangedFor done
    ∧ unchangedFor done < burstStableSteps
    ∧ ∃ c, done.getLast? = some c ∧ w.sig = nodeSetSig c.raw.nodes
  /-- Outside a burst the last call did not begin one. -/
  calm : w.burst = false → ∀ c, done.getLast? = some c →
    ¬ Grown ((recentSizes done).foldl Min.min c.size) c.size

theorem watched_init : Watched (F := F) [] ⟨[], false, 0, 0, false⟩ where
  hist := rfl
  running h := by cases h
  calm _ c h := by cases h

theorem recentSizes_concat (done : List (ForceCall F)) (c : ForceCall F) :
    (recentSizes done ++ [c.size]).rtake burstWindowSteps = recentSizes (done ++ [c]) := by
  unfold recentSizes
  rw [rtake_slide, List.map_append, List.map_singleton]

theorem unchangedFor_concat (h : done.getLast? = some c') :
    unchangedFor (done ++ [c]) = if c.sameSet c' then unchangedFor done + 1 else 0 := by
  obtain ⟨front, rfl⟩ := List.getLast?_eq_some_iff.mp h
  unfold unchangedFor
  rw [List.reverse_append, List.reverse_append]
  rfl

theorem ForceCall.sameSet.sig (h : c.sameSet c') : nodeSetSig c.raw.nodes = nodeSetSig c'.raw.nodes := by
  unfold ForceCall.sameSet ForceCall.nodeSet at h
  unfold nodeSetSig
  rw [h]

/-- A call that begins a burst has another node set than the call before it. -/
theorem Watched.changed (h : Watched done w) (hb : w.burst = false) (hl : done.getLast? = some c')
    (hg : Grown ((recentSizes (done ++ [c])).foldl Min.min c.size) c.size) : ¬ c.sameSet c' := by
  intro hsame
  refine h.calm hb c' hl ?_
  rw [← ForceCall.size_eq c c' hsame]
  refine hg.of_le (le_foldl_min.mpr ?_)
  have hall := le_foldl_min.mp (Nat.le_refl ((recentSizes done).foldl Min.min c.size))
  refine ⟨hall.1, fun x hx => ?_⟩
  rw [← recentSizes_concat] at hx
  rcases List.mem_append.mp (List.mem_of_mem_drop hx) with hx | hx
  · exact hall.2 x hx
  · rw [List.mem_singleton.mp hx]
    exact hall.1

/-- After a streak of ten the window shows one size, and nothing has grown. -/
theorem not_grown_of_streak (h : burstStableSteps ≤ unchangedFor (done ++ [c])) :
    ¬ Grown ((recentSizes (done ++ [c])).foldl Min.min c.size) c.size := by
  unfold unchangedFor at h
  rw [List.reverse_append] at h
  have hwin : ∀ x ∈ recentSizes (done ++ [c]), x = c.size := fun x hx =>
    window_of_streak ForceCall.size_eq done h x (mem_rtake_of_le (Nat.le_succ _) hx)
  have hmin : c.size ≤ (recentSizes (done ++ [c])).foldl Min.min c.size :=
    le_foldl_min.mpr ⟨Nat.le_refl _, fun x hx => Nat.le_of_eq (hwin x hx).symm⟩
  exact fun hg => not_grown_self c.size (hg.of_le hmin)

/-! ## One step -/

variable {grown : List Nat → Nat → Bool}

theorem Watched.hist_record (h : Watched done w) (c : ForceCall F) (s : UInt64) :
    (w.record c.size s).hist = recentSizes (done ++ [c]) := by
  show (w.hist ++ [c.size]).rtake burstWindowSteps = _
  rw [h.hist, recentSizes_concat]

/-- The counter goes with the streak as long as the signature kept is that of the last call. -/
theorem Watched.record_stable (h : Watched done w) (hd : DistinctSigs (done ++ [c]))
    (hb : w.burst = true) :
    (w.record c.size (nodeSetSig c.raw.nodes)).stable = unchangedFor (done ++ [c]) := by
  obtain ⟨hlaid, hstable, -, c', hl, hsig⟩ := h.running hb
  have hmem : c' ∈ done := List.mem_of_getLast? hl
  have hiff : (nodeSetSig c.raw.nodes == w.sig) = true ↔ c.sameSet c' := by
    rw [beq_iff_eq, hsig]
    exact ⟨hd c (by simp) c' (by simp [hmem]), ForceCall.sameSet.sig⟩
  unfold Watch.record
  dsimp only
  rw [hlaid, Bool.true_and, unchangedFor_concat hl, hstable]
  by_cases hs : c.sameSet c'
  · rw [if_pos (hiff.mpr hs), if_pos hs]
  · rw [if_neg (mt hiff.mp hs), if_neg hs]

/-- **One step keeps what is known**, unless it is a step of a burst over no node. -/
theorem Watched.next (h : Watched done w) (hd : DistinctSigs (done ++ [c]))
    (hgrown : ∀ hist n, grown hist n = true ↔ Grown (hist.foldl Min.min n) n)
    (hok : w.burst = true → c.raw.nodes ≠ []) :
    Watched (done ++ [c]) (w.next grown c.size (nodeSetSig c.raw.nodes)) := by
  have hhist := h.hist_record c (nodeSetSig c.raw.nodes)
  have hlast : (done ++ [c]).getLast? = some c := List.getLast?_concat
  have hburst : (w.record c.size (nodeSetSig c.raw.nodes)).burst = w.burst := rfl
  have hkept : ∀ v : Watch, v.hist = recentSizes (done ++ [c]) → v.burst = false →
      ¬ Grown ((recentSizes (done ++ [c])).foldl Min.min c.size) c.size →
      Watched (done ++ [c]) (v.layOut c.size (nodeSetSig c.raw.nodes)) := by
    intro v hv hvb hg
    refine ⟨hv, fun hb => ?_, fun _ c' hl => ?_⟩
    · rw [show (v.layOut c.size (nodeSetSig c.raw.nodes)).burst = v.burst from rfl, hvb] at hb
      cases hb
    · rw [hlast, Option.some.injEq] at hl
      rw [← hl]
      exact hg
  have hruns : ∀ v : Watch, v.hist = recentSizes (done ++ [c]) → v.burst = true →
      v.stable = unchangedFor (done ++ [c]) → unchangedFor (done ++ [c]) < burstStableSteps →
      c.size ≠ 0 → Watched (done ++ [c]) (v.layOut c.size (nodeSetSig c.raw.nodes)) := by
    intro v hv hvb hstable hlt hne
    refine ⟨hv, fun _ => ⟨rfl, hstable, hlt, c, hlast, if_neg hne⟩, fun hb => ?_⟩
    rw [show (v.layOut c.size (nodeSetSig c.raw.nodes)).burst = v.burst from rfl, hvb] at hb
    cases hb
  unfold Watch.next Watch.turn
  rw [hburst]
  cases hb : w.burst with
  | true =>
    have hstable := h.record_stable hd hb
    have hne : c.size ≠ 0 := fun h0 => hok hb (List.length_eq_zero_iff.mp h0)
    rw [if_pos rfl, hstable]
    by_cases hk : burstStableSteps ≤ unchangedFor (done ++ [c])
    · rw [if_pos hk]
      exact hkept _ hhist rfl (not_grown_of_streak hk)
    · rw [if_neg hk]
      exact hruns _ hhist hb hstable (by omega) hne
  | false =>
    rw [if_neg (by decide), hhist]
    by_cases hg : grown (recentSizes (done ++ [c])) c.size = true
    · rw [if_pos hg]
      have hg' := (hgrown _ _).mp hg
      have hne : c.size ≠ 0 := by
        unfold Grown at hg'
        omega
      -- a burst begins at a call whose node set is new
      have hzero : unchangedFor (done ++ [c]) = 0 := by
        cases hl : done.getLast? with
        | none =>
          rw [List.getLast?_eq_none_iff.mp hl]
          rfl
        | some c' => rw [unchangedFor_concat hl, if_neg (h.changed hb hl hg')]
      exact hruns _ rfl rfl hzero.symm (by rw [hzero]; decide) hne
    · rw [if_neg hg]
      exact hkept _ hhist hb fun hg' => hg ((hgrown _ _).mpr hg')

/-! ## Whole runs -/

variable [FloatMath F] [RuneCase] {rng : Nat → F}

/-- No step taken in a burst is over no node. -/
def BurstsOverNodes (rng : Nat → F) (calls : List (ForceCall F)) : Prop :=
  Run.Guarded forceStep (fun le c => le.inBurst = true → c.raw.nodes ≠ []) (newLayoutEngine rng)
    calls

theorem watched_run (hten : ExactTenth F) (hok : BurstsOverNodes rng calls)
    (hd : DistinctSigs calls) : Watched calls (forceRun rng calls).watch := by
  have hinv : (forceRun rng calls).frozen = ∅
      ∧ (DistinctSigs calls → Watched calls (forceRun rng calls).watch) := by
    refine Run.history_invariant
      (P := fun done (le : LayoutEngine F) =>
        le.frozen = ∅ ∧ (DistinctSigs done → Watched done le.watch))
      ⟨rfl, fun _ => watched_init⟩ ?_ hok
    rintro done le c ⟨hf, hw⟩ hc
    refine ⟨forceStep_frozen hf c, fun hd => ?_⟩
    rw [watch_forceStep hf]
    have hd' : DistinctSigs done := fun a ha b hb =>
      hd a (List.mem_append_left _ ha) b (List.mem_append_left _ hb)
    exact (hw hd').next hd (burstGrowth_iff hten) hc
  exact hinv.2 hd

/--
What a burst is for, over a run: it begins on growth within the window, ends at the
step the node set has been the same for ten steps and reheats there, and does not
begin again over that node set.
-/
structure BurstsEndOnce (rng : Nat → F) (calls : List (ForceCall F)) : Prop where
  /-- The size has outgrown the least of the last ten. -/
  entered : ∀ {done c rest}, calls = done ++ c :: rest → (forceRun rng done).inBurst = false →
    (forceRun rng (done ++ [c])).inBurst = true →
    ∃ m ∈ recentSizes (done ++ [c]), (∀ m' ∈ recentSizes (done ++ [c]), m ≤ m') ∧ Grown m c.size
  exits : ∀ {done c rest}, calls = done ++ c :: rest → (forceRun rng done).inBurst = true →
    ((forceRun rng (done ++ [c])).inBurst = false ↔ burstStableSteps ≤ unchangedFor (done ++ [c]))
  reheats : ∀ {done c rest}, calls = done ++ c :: rest →
    (((forceRun rng done).trackBurst "force" c.raw).2.2 = true
      ↔ (forceRun rng done).inBurst = true ∧ (forceRun rng (done ++ [c])).inBurst = false)
  stays : ∀ {done c later rest}, calls = done ++ c :: (later ++ rest) →
    (forceRun rng done).inBurst = true → (forceRun rng (done ++ [c])).inBurst = false →
    (∀ c' ∈ later, c'.sameSet c) → (forceRun rng (done ++ c :: later)).inBurst = false

omit [FloatMath F] [RuneCase] in
theorem turn_burst (grown : List Nat → Nat → Bool) (w : Watch) (n : Nat) :
    (w.turn grown n).1.burst
        = (if w.burst then !decide (burstStableSteps ≤ w.stable) else grown w.hist n)
      ∧ (w.turn grown n).2 = (w.burst && decide (burstStableSteps ≤ w.stable)) := by
  unfold Watch.turn
  cases hb : w.burst with
  | true =>
    rw [if_pos rfl, if_pos rfl]
    by_cases hk : burstStableSteps ≤ w.stable
    · rw [if_pos hk, decide_eq_true hk]
      exact ⟨rfl, rfl⟩
    · rw [if_neg hk, decide_eq_false hk]
      exact ⟨hb, rfl⟩
  | false =>
    rw [if_neg Bool.false_ne_true, if_neg Bool.false_ne_true]
    by_cases hg : grown w.hist n = true
    · rw [if_pos hg, hg]
      exact ⟨rfl, rfl⟩
    · rw [if_neg hg]
      rw [Bool.not_eq_true] at hg
      rw [hg]
      exact ⟨hb, rfl⟩

/-- Whether the engine is in a burst after one more call, and whether that call ended one. -/
theorem inBurst_concat (rng : Nat → F) (done : List (ForceCall F)) (c : ForceCall F) :
    (forceRun rng (done ++ [c])).inBurst
        = (if (forceRun rng done).inBurst then
            !decide (burstStableSteps
              ≤ ((forceRun rng done).watch.record c.size (nodeSetSig c.raw.nodes)).stable)
          else burstGrowth F
            ((forceRun rng done).watch.record c.size (nodeSetSig c.raw.nodes)).hist c.size)
      ∧ ((forceRun rng done).trackBurst "force" c.raw).2.2
        = ((forceRun rng done).inBurst && decide (burstStableSteps
            ≤ ((forceRun rng done).watch.record c.size (nodeSetSig c.raw.nodes)).stable)) := by
  have hturn := turn_burst (burstGrowth F)
    ((forceRun rng done).watch.record c.size (nodeSetSig c.raw.nodes)) c.size
  have hwatch := congrArg Watch.burst (watch_forceStep (forceRun_frozen rng done) c)
  rw [← forceRun_concat] at hwatch
  exact ⟨hwatch.trans hturn.1, (watch_beforeGate (forceRun rng done) c).2.trans hturn.2⟩

/-- The bookkeeping of a run, by itself. -/
theorem watch_forceRun (rng : Nat → F) (calls : List (ForceCall F)) :
    (forceRun rng calls).watch
      = calls.foldl (fun w c => w.next (burstGrowth F) c.size (nodeSetSig c.raw.nodes))
          ⟨[], false, 0, 0, false⟩ := by
  induction calls using List.reverseRecOn with
  | nil => rfl
  | append_singleton done c ih =>
    rw [forceRun_concat, watch_forceStep (forceRun_frozen rng done), ih, List.foldl_append]
    rfl

/-- **Bursts end once** in every run whose bursts are over some node at every step. -/
theorem burstsEndOnce_of_overNodes (hten : ExactTenth F) (hd : DistinctSigs calls)
    (hok : BurstsOverNodes rng calls) : BurstsEndOnce rng calls := by
  have hpre : ∀ {done rest}, calls = done ++ rest →
      DistinctSigs done ∧ Watched done (forceRun rng done).watch := by
    intro done rest he
    rw [he] at hd hok
    have hd' : DistinctSigs done := fun a ha b hb =>
      hd a (List.mem_append_left _ ha) b (List.mem_append_left _ hb)
    exact ⟨hd', watched_run hten (Run.guarded_append.mp hok).1 hd'⟩
  have hnext : ∀ {done : List (ForceCall F)} {c rest}, calls = done ++ c :: rest →
      DistinctSigs (done ++ [c]) := by
    intro done c rest he
    have he' : calls = (done ++ [c]) ++ rest := by
      rw [he, List.append_assoc]
      rfl
    exact (hpre he').1
  -- a call outside a burst begins one exactly when the sizes have grown
  have hbegin : ∀ {done : List (ForceCall F)} {c rest}, calls = done ++ c :: rest →
      (forceRun rng done).inBurst = false → (forceRun rng (done ++ [c])).inBurst = true →
      Grown ((recentSizes (done ++ [c])).foldl Min.min c.size) c.size := by
    intro done c rest he hout hin
    rw [(inBurst_concat rng done c).1, hout, if_neg (by decide), (hpre he).2.hist_record,
      burstGrowth_iff hten] at hin
    exact hin
  refine ⟨?_, ?_, ?_, ?_⟩
  · intro done c rest he hout hin
    have hmem : c.size ∈ recentSizes (done ++ [c]) := by
      unfold recentSizes
      rw [List.map_append, List.map_singleton]
      exact (List.rtake_concat_succ _ 9 _) ▸ List.mem_append_right _ List.mem_cons_self
    exact ⟨_, foldl_min_mem hmem, fun m' hm' => (le_foldl_min.mp (Nat.le_refl _)).2 m' hm',
      hbegin he hout hin⟩
  · intro done c rest he hin
    rw [(inBurst_concat rng done c).1, hin, if_pos rfl,
      (hpre he).2.record_stable (hnext he) hin, Bool.not_eq_false', decide_eq_true_eq]
  · intro done c rest he
    rw [(inBurst_concat rng done c).1, (inBurst_concat rng done c).2, Bool.and_eq_true,
      decide_eq_true_eq]
    refine and_congr_right fun hin => ?_
    rw [hin, if_pos rfl, Bool.not_eq_false', decide_eq_true_eq]
  · intro done c later rest he hin hout hsame
    induction later using List.reverseRecOn generalizing rest with
    | nil => exact hout
    | append_singleton later c' ih =>
      have hshift : calls = done ++ c :: (later ++ c' :: rest) := by
        rw [he]
        simp
      have hfront := ih hshift fun b hb => hsame b (List.mem_append_left _ hb)
      have he' : calls = (done ++ c :: later) ++ c' :: rest := by
        rw [he]
        simp
      rw [← List.cons_append, ← List.append_assoc]
      by_contra hagain
      rw [Bool.not_eq_false] at hagain
      -- the call before has the same node set, so no burst begins here
      obtain ⟨b, hl⟩ : ∃ b, (c :: later).getLast? = some b :=
        Option.isSome_iff_exists.mp (by simp)
      have hb : b.sameSet c := by
        rcases List.mem_cons.mp (List.mem_of_getLast? hl) with rfl | hb
        · rfl
        · exact hsame b (List.mem_append_left _ hb)
      have hlast : (done ++ c :: later).getLast? = some b := by
        rw [List.getLast?_append, hl]
        rfl
      exact (hpre he').2.changed hfront hlast (hbegin he' hfront hagain)
        ((hsame c' (by simp)).trans hb.symm)

end Runs

/-! ## A scan -/

/-- Exact fractions; the functions no counter uses are stand-ins. -/
instance fractionMath : FloatMath ℚ where
  ofInt n := n
  half := 1 / 2
  add x y := x + y
  mul x y := x * y
  log x := x
  round x := x.floor
  eq x y := decide (x = y)
  float32bits x := UInt32.ofNat (x.floor % 2 ^ 32).toNat
  sub x y := x - y
  div x y := x / y
  lt x y := decide (x < y)
  le x y := decide (x ≤ y)
  min x y := if x < y then x else y
  max x y := if x < y then y else x
  hypot x y := |x| + |y|
  sqrt x := x
  cos x := x
  sin x := x
  floor x := x.floor
  ceil x := x.ceil
  log1p x := x
  roundTo x := x.floor
  pi := 22 / 7
  maxFloat64 := 2 ^ 1023
  decimal m e := m / 10 ^ e
  trunc x := x.floor

theorem exactTenth_fraction : ExactTenth ℚ where
  iff w g _ := by
    show decide ((((10 : ℕ) : ℚ) / 10 ^ 2) * ((w : ℤ) : ℚ) < ((g : ℤ) : ℚ)) = true ↔ w < 10 * g
    rw [decide_eq_true_eq]
    push_cast
    constructor
    · intro h
      have hw : (w : ℚ) < ((10 * g : ℕ) : ℚ) := by
        push_cast
        linarith
      exact_mod_cast hw
    · intro h
      have hw : (w : ℚ) < ((10 * g : ℕ) : ℚ) := by exact_mod_cast h
      push_cast at hw
      linarith

/-- A call over some hosts. -/
def overHosts {F : Type} (ids : List String) : ForceCall F where
  raw := ⟨ids.map quiet, []⟩

/-- The hosts of a scan. -/
def scanned : List String := (List.range 26).map fun i => "10.0.0." ++ i.repr

theorem scanned_sig : nodeSetSig (scanned.map quiet) ≠ nodeSetSig [] := by decide +kernel

/-- Calls over no node and calls over the hosts of the scan are told apart. -/
theorem distinctSigs_scan {F : Type} {calls : List (ForceCall F)}
    (h : ∀ c ∈ calls, c = overHosts [] ∨ c = overHosts scanned) : DistinctSigs calls := by
  intro c hc c' hc' hsig
  rcases h c hc with rfl | rfl <;> rcases h c' hc' with rfl | rfl
  · rfl
  · exact absurd hsig.symm scanned_sig
  · exact absurd hsig scanned_sig
  · rfl

/-- An empty view, a scan that stays, and no call of the burst over no node. -/
theorem burstsEndOnce_of_overNodes_scan :
    BurstsEndOnce (fun _ => (0 : ℚ)) (overHosts [] :: List.replicate 12 (overHosts scanned)) := by
  refine burstsEndOnce_of_overNodes exactTenth_fraction (distinctSigs_scan fun c hc => ?_) ?_
  · rcases List.mem_cons.mp hc with h | h
    · exact Or.inl h
    · exact Or.inr (List.eq_of_mem_replicate h)
  · refine ⟨fun h => absurd h (by decide), ?_⟩
    generalize forceStep (newLayoutEngine fun _ => (0 : ℚ)) (overHosts []) = le
    have hall : ∀ (k : Nat) (le : LayoutEngine ℚ), Run.Guarded forceStep
        (fun le c => le.inBurst = true → c.raw.nodes ≠ []) le
        (List.replicate k (overHosts scanned)) := by
      intro k
      induction k with
      | zero => exact fun _ => trivial
      | succ k ih => exact fun le => ⟨fun _ => List.cons_ne_nil _ _, ih _⟩
    exact hall 12 le

/-- The view is emptied during the burst of a scan, and stays empty. -/
def clearedScan : List (ForceCall Float) :=
  [overHosts [], overHosts scanned] ++ List.replicate 11 (overHosts [])

/-- The burst of a scan outlives the view: over no node it never ends. -/
theorem burst_outlivesView :
    ¬ ∀ (rng : Nat → Float) (calls : List (ForceCall Float)), DistinctSigs calls →
      BurstsEndOnce rng calls := by
  intro h
  have hd : DistinctSigs clearedScan := distinctSigs_scan fun c hc => by
    rcases List.mem_append.mp hc with hc | hc
    · simpa using hc
    · exact Or.inl (List.eq_of_mem_replicate hc)
  have hin : ∀ calls : List (ForceCall Float),
      (calls.foldl (fun w c => w.next (burstGrowth Float) c.size (nodeSetSig c.raw.nodes))
        ⟨[], false, 0, 0, false⟩ : Watch).burst = true →
      (forceRun (fun _ => 0) calls).inBurst = true := by
    intro calls hc
    rw [← watch_forceRun (fun _ => 0) calls] at hc
    exact hc
  have hsplit : clearedScan
      = ([overHosts [], overHosts scanned] ++ List.replicate 10 (overHosts [])) ++ overHosts [] :: [] := rfl
  have hexit := (h (fun _ => 0) clearedScan hd).exits hsplit (hin _ (by decide +kernel))
  have hend := hexit.mpr (by decide +kernel)
  rw [hin _ (by decide +kernel)] at hend
  cases hend

end LayoutEngine

end Etherchimp
