import Etherchimp.Proof.Bursts

/-!
# Elders stay put during a burst

A burst step seeds the nodes without a position, remembers which it seeded during this
burst, and holds every other node where it is while the seeded ones relax. A node that
had a position when the burst began and is never dropped is never seeded, so no step of
the burst moves it; only a pin would.

Where nothing has changed since the last relaxation and the layout has settled, the gate
stays shut.
-/

namespace Etherchimp

namespace LayoutEngine

open Grouping

section Frozen

variable {F : Type} [FloatMath F]

/-! ## One relaxation -/

/-- Integrating moves no frozen node. -/
theorem integrate_frozen {b : Bodies F} {i : Nat} (hf : b.frozenArr.getD i false = true)
    (disp : List (Vec F)) (temp : F) (s : List (Vec F) × F) (j : Nat) :
    (integrate b disp temp s j).1[i]? = s.1[i]? := by
  unfold integrate
  by_cases hj : (b.pinnedArr.getD j false || b.frozenArr.getD j false) = true
  · rw [if_pos hj]
  · rw [if_neg hj]
    have hij : i ≠ j := by
      intro he
      rw [← he, hf, Bool.or_true] at hj
      exact hj rfl
    dsimp only
    split
    · rfl
    · exact List.getElem?_modify_ne _ _ (Ne.symm hij)

theorem relax_frozen {b : Bodies F} {i : Nat} (hf : b.frozenArr.getD i false = true)
    (s : Relaxation F) : (relax b s).posArr[i]? = s.posArr[i]? := by
  unfold relax
  dsimp only
  generalize (List.map _ _ : List (Vec F)) = disp
  refine foldl_keeps (P := fun m : List (Vec F) × F => m.1[i]? = s.posArr[i]?) ?_ _ rfl
  intro m j hm
  exact (integrate_frozen hf disp s.temp m j).trans hm

theorem relaxations_frozen {b : Bodies F} {i : Nat} (hf : b.frozenArr.getD i false = true)
    (k : Nat) (s : Relaxation F) : ((relax b)^[k] s).posArr[i]? = s.posArr[i]? := by
  induction k generalizing s with
  | zero => rfl
  | succ k ih => rw [Function.iterate_succ_apply, ih, relax_frozen hf]

/-! ## One force step of a burst -/

/-- A node placed at `v`, and not during the current burst. -/
structure Elder (le : LayoutEngine F) (id : String) (v : Vec F) : Prop where
  placed : le.forcePosition id = some v
  unseeded : (((le.burstNew.lookup "force").getD ∅).lookup id).getD false = false

variable {le : LayoutEngine F} {id : String} {v : Vec F}

/-- Seeding leaves a placed node alone. -/
theorem seedNode_placed (n : Nat) (neighbors : KeyedMap String (List String))
    (departed : KeyedMap String (Vec F)) (burst : Bool) (s : Seeding F) (id' : String)
    (h : s.pos.lookup id = some v ∧ (s.seeded.lookup id).getD false = false) :
    (seedNode n neighbors departed burst s id').pos.lookup id = some v
      ∧ ((seedNode n neighbors departed burst s id').seeded.lookup id).getD false = false := by
  unfold seedNode
  cases hp : s.pos.lookup id' with
  | some p => exact h
  | none =>
    have hne : id ≠ id' := by
      intro he
      rw [← he, h.1] at hp
      cases hp
    dsimp only
    refine ⟨(AList.lookup_insert_ne hne).trans h.1, ?_⟩
    split
    · rw [AList.lookup_insert_ne hne]
      exact h.2
    · exact h.2

omit [FloatMath F] in
theorem applyPins_unpinned (ids : List String) {pos pins : KeyedMap String (Vec F)}
    (hpin : pins.lookup id = none) : (applyPins ids pos pins).lookup id = pos.lookup id := by
  unfold applyPins
  have hkeep : ∀ (l : List (Sigma fun _ : String => Vec F)) (pos : KeyedMap String (Vec F)),
      (∀ p ∈ l, p.1 ≠ id) →
      (l.foldl (fun pos p => if p.1 ∈ ids then pos.insert p.1 p.2 else pos) pos).lookup id
        = pos.lookup id := by
    intro l
    induction l with
    | nil => exact fun _ _ => rfl
    | cons p l ih =>
      intro pos hl
      rw [List.foldl_cons, ih _ fun q hq => hl q (List.mem_cons_of_mem p hq)]
      split
      · exact AList.lookup_insert_ne (hl p List.mem_cons_self).symm
      · rfl
  refine hkeep _ _ fun p hp he => ?_
  have hl := (KeyedMap.mem_entries_iff pins p.1 p.2).mp hp
  rw [he, hpin] at hl
  cases hl

omit [FloatMath F] in
/-- Writing back changes nothing where only the old position is written. -/
theorem writeBack_same {pos : KeyedMap String (Vec F)} {ids : List String} {posArr : List (Vec F)}
    (hp : pos.lookup id = some v) (h : ∀ i : Nat, ids[i]? = some id → posArr[i]? = some v) :
    (writeBack pos ids posArr).lookup id = some v := by
  unfold writeBack
  have hzip : ∀ r ∈ ids.zip posArr, r.1 = id → r.2 = v := by
    intro r hr he
    obtain ⟨i, hi⟩ := List.mem_iff_getElem?.mp hr
    rw [List.getElem?_zip_eq_some] at hi
    have hv := h i (he ▸ hi.1)
    rw [hi.2, Option.some.injEq] at hv
    exact hv
  generalize ids.zip posArr = l at hzip
  induction l generalizing pos with
  | nil => exact hp
  | cons r l ih =>
    refine ih ?_ fun q hq => hzip q (List.mem_cons_of_mem r hq)
    rw [KeyedMap.lookup_insert_eq]
    by_cases he : id = r.1
    · rw [if_pos he, hzip r List.mem_cons_self he.symm]
    · rw [if_neg he]
      exact hp

/-- **A force step of a burst leaves the elders where they are.** -/
theorem Elder.stepForce (h : Elder le id v) {raw : RawSnapshot} {pins : KeyedMap String (Vec F)}
    (radii : Option (KeyedMap String F)) (hid : id ∈ raw.nodes.map Node.ip)
    (hpin : pins.lookup id = none) :
    Elder (le.stepForce raw pins radii none "force" true) id v := by
  have hn : ¬ (raw.nodes.map Node.ip).length = 0 := fun h0 => by
    rw [List.length_eq_zero_iff.mp h0] at hid
    cases hid
  unfold LayoutEngine.stepForce
  dsimp only
  rw [if_neg hn]
  generalize hfold : List.foldl _ _ _ = s
  have hseed : s.pos.lookup id = some v ∧ (s.seeded.lookup id).getD false = false := by
    rw [← hfold]
    exact foldl_keeps
      (P := fun s : Seeding F => s.pos.lookup id = some v ∧ (s.seeded.lookup id).getD false = false)
      (fun s id' hs => seedNode_placed _ _ _ true s id' hs) _ ⟨h.placed, h.unseeded⟩
  have hpos : (applyPins (raw.nodes.map Node.ip) (s.pos.filterKey fun id => id ∈ raw.nodes.map Node.ip)
      pins).lookup id = some v := by
    rw [applyPins_unpinned _ hpin, KeyedMap.lookup_filterKey, if_pos (decide_eq_true hid)]
    exact hseed.1
  generalize applyPins _ _ pins = pos at hpos
  refine ⟨?_, ?_⟩
  · unfold forcePosition
    dsimp only
    rw [AList.lookup_insert]
    refine writeBack_same hpos fun i hi => ?_
    -- it was not seeded, so it is frozen
    rw [relaxations_frozen, List.getElem?_map, hi]
    · show some ((pos.lookup id).getD Vec.zero) = some v
      rw [hpos]
      rfl
    · unfold bodies
      dsimp only
      rw [List.getD_eq_getElem?_getD, List.getElem?_map, hi]
      show (true && !(s.seeded.lookup id).getD false) = true
      rw [hseed.2]
      rfl
  · dsimp only
    rw [if_pos rfl, AList.lookup_insert]
    exact hseed.2

/-! ## A whole burst -/

/-- Entering a burst forgets which nodes were seeded; a burst that goes on remembers. -/
theorem trackBurst_burstNew (le : LayoutEngine F) (raw : RawSnapshot)
    (hb : (le.trackBurst "force" raw).2.1 = true) :
    (le.trackBurst "force" raw).2.2 = false
      ∧ (le.trackBurst "force" raw).1.inBurst = true
      ∧ (le.trackBurst "force" raw).1.burstNew.lookup "force"
        = if le.inBurst then le.burstNew.lookup "force" else some ∅ := by
  have hrecord : (le.recordSize "force" raw).burst = le.burst := rfl
  have hnew : (le.recordSize "force" raw).burstNew = le.burstNew := rfl
  unfold trackBurst at hb ⊢
  unfold inBurst
  generalize le.recordSize "force" raw = le₁ at hb hrecord hnew ⊢
  dsimp only at hb ⊢
  rw [← hrecord, ← hnew]
  by_cases hin : (le₁.burst.lookup "force").getD false = true
  · rw [if_pos hin] at hb ⊢
    by_cases hk : burstStableSteps ≤ (le₁.stableSteps.lookup "force").getD 0
    · rw [if_pos hk] at hb
      cases hb
    · rw [if_neg hk, if_pos hin]
      exact ⟨rfl, hin, rfl⟩
  · rw [if_neg hin] at hb ⊢
    by_cases hg : burstGrowth F ((le₁.sizeHist.lookup "force").getD []) raw.nodes.length = true
    · rw [if_pos hg, if_neg hin]
      exact ⟨rfl, by rw [AList.lookup_insert]; rfl, AList.lookup_insert _⟩
    · rw [if_neg hg] at hb
      cases hb

variable [RuneCase] {rng : Nat → F}

/-- Calls that are all steps of one burst, from the one that begins it. -/
structure BurstRun (rng : Nat → F) (pre mid : List (ForceCall F)) : Prop where
  begins : (forceRun rng pre).inBurst = false
  burst : ∀ {done c rest}, mid = done ++ c :: rest →
    ((forceRun rng (pre ++ done)).trackBurst "force" c.raw).2.1 = true

/-- One more call of a burst. -/
theorem Elder.step (hf : le.frozen = ∅) {c : ForceCall F} (hplaced : le.forcePosition id = some v)
    (hold : le.inBurst = true → Elder le id v)
    (hb : (le.trackBurst "force" c.raw).2.1 = true) (hid : id ∈ c.raw.nodes.map Node.ip)
    (hpin : c.args.pins.lookup id = none) :
    (le.forceStep c).inBurst = true ∧ Elder (le.forceStep c) id v := by
  obtain ⟨hexit, hin, hnew⟩ := trackBurst_burstNew le c.raw hb
  have hgate : le.beforeGate c = (le.trackBurst "force" c.raw).1 := by
    unfold beforeGate
    dsimp only
    rw [hexit]
    rfl
  have helder : Elder (le.beforeGate c) id v := by
    refine ⟨?_, ?_⟩
    · unfold forcePosition
      rw [(beforeGate_frame le c).1]
      exact hplaced
    · rw [hgate, hnew]
      by_cases hle : le.inBurst = true
      · rw [if_pos hle]
        exact (hold hle).unseeded
      · rw [if_neg hle]
        rfl
  rw [forceStep_eq hf]
  split
  · refine ⟨?_, ?_⟩
    · have hburst := congrArg Watch.burst (watch_stepForce
        { le.beforeGate c with pins := (le.beforeGate c).pins.insert "force" c.args.pins } c.raw
        c.args.pins c.args.radii (le.trackBurst "force" c.raw).2.1)
      refine hburst.trans ?_
      show (le.beforeGate c).inBurst = true
      rw [hgate]
      exact hin
    · unfold relaxed
      dsimp only
      rw [hb]
      refine Elder.stepForce ?_ c.args.radii hid hpin
      exact ⟨helder.placed, helder.unseeded⟩
  · rw [hgate] at helder ⊢
    exact ⟨hin, helder⟩

/-- **No call of a burst moves an elder.** -/
theorem BurstRun.elder {pre mid : List (ForceCall F)} (h : BurstRun rng pre mid)
    (hplaced : (forceRun rng pre).forcePosition id = some v)
    (hid : ∀ c ∈ mid, id ∈ c.raw.nodes.map Node.ip)
    (hpin : ∀ c ∈ mid, c.args.pins.lookup id = none) {done rest : List (ForceCall F)}
    (hmid : mid = done ++ rest) : (forceRun rng (pre ++ done)).forcePosition id = some v
      ∧ ((forceRun rng (pre ++ done)).inBurst = true → Elder (forceRun rng (pre ++ done)) id v) := by
  induction done using List.reverseRecOn generalizing rest with
  | nil =>
    rw [List.append_nil]
    refine ⟨hplaced, fun hin => ?_⟩
    rw [h.begins] at hin
    cases hin
  | append_singleton done c ih =>
    have hmid' : mid = done ++ c :: rest := by
      rw [hmid]
      simp
    obtain ⟨hold, helder⟩ := ih hmid'
    have hc : c ∈ mid := by
      rw [hmid']
      simp
    have hnext := Elder.step (forceRun_frozen rng (pre ++ done)) hold helder (h.burst hmid')
      (hid c hc) (hpin c hc)
    rw [← List.append_assoc, forceRun_concat]
    exact ⟨hnext.2.placed, fun _ => hnext.2⟩

/-! ## At rest -/

/-- The last call that passed the gate. -/
structure LastRelaxed (rng : Nat → F) (done : List (ForceCall F)) (c₀ : ForceCall F) : Prop where
  split : ∃ pre later, done = pre ++ c₀ :: later ∧ (forceRun rng pre).relaxes c₀ = true
    ∧ ∀ {front c rest}, later = front ++ c :: rest →
      (forceRun rng (pre ++ c₀ :: front)).relaxes c = false

/-- What the gate compares a call with: what the last relaxation was given. -/
structure LaidOutFor (le : LayoutEngine F) (c₀ : ForceCall F) : Prop where
  laid : (le.positions.lookup "force").isSome = true
  pins : le.pins.lookup "force" = some c₀.args.pins
  sig : c₀.raw.nodes ≠ [] → (le.sig.lookup "force").getD 0 = nodeSetSig c₀.raw.nodes

omit [RuneCase] in
/-- A relaxation leaves what it was given. -/
theorem relaxed_laidOutFor (le : LayoutEngine F) (c : ForceCall F) :
    LaidOutFor (le.relaxed c) c := by
  unfold relaxed
  generalize le.beforeGate c = b
  generalize (le.trackBurst "force" c.raw).2.1 = burst
  have hwatch := watch_stepForce { b with pins := b.pins.insert "force" c.args.pins } c.raw
    c.args.pins c.args.radii burst
  dsimp only
  refine ⟨congrArg Watch.laid hwatch, ?_, fun hne => ?_⟩
  · unfold stepForce
    dsimp only
    split
    · exact AList.lookup_insert _
    · exact AList.lookup_insert _
  · refine (congrArg Watch.sig hwatch).trans ?_
    exact if_neg fun h0 => hne (List.length_eq_zero_iff.mp h0)

omit [RuneCase] in
/-- Nothing the gate reads changes on the way to it. -/
theorem LaidOutFor.beforeGate {c₀ : ForceCall F} (h : LaidOutFor le c₀) (c : ForceCall F) :
    LaidOutFor (le.beforeGate c) c₀ := by
  obtain ⟨hpos, -, hsig, hpins⟩ := beforeGate_frame le c
  refine ⟨?_, ?_, fun hne => ?_⟩
  · rw [hpos]
    exact h.laid
  · rw [hpins]
    exact h.pins
  · rw [hsig]
    exact h.sig hne

theorem LastRelaxed.laidOutFor {done : List (ForceCall F)} {c₀ : ForceCall F}
    (h : LastRelaxed rng done c₀) : LaidOutFor (forceRun rng done) c₀ := by
  obtain ⟨pre, later, rfl, hrel, hskip⟩ := h.split
  have hlater : ∀ front rest, later = front ++ rest →
      LaidOutFor (forceRun rng (pre ++ c₀ :: front)) c₀ := by
    intro front
    induction front using List.reverseRecOn with
    | nil =>
      intro rest _
      rw [forceRun_step, if_pos hrel]
      exact relaxed_laidOutFor _ _
    | append_singleton front c ih =>
      intro rest he
      have he' : later = front ++ c :: rest := by
        rw [he]
        simp
      rw [← List.cons_append, ← List.append_assoc, forceRun_step, if_neg (by rw [hskip he']; decide)]
      exact (ih _ he').beforeGate c
  exact hlater later [] (List.append_nil _).symm

omit [RuneCase] in
/-- Where no burst ends, the gate finds the flag as it was. -/
theorem beforeGate_settled {c : ForceCall F} (hexit : (le.trackBurst "force" c.raw).2.2 = false) :
    (le.beforeGate c).isSettled "force" = le.isSettled "force" := by
  unfold LayoutEngine.beforeGate
  dsimp only
  rw [hexit, if_neg Bool.false_ne_true]
  unfold isSettled
  rw [(trackBurst_keeps le "force" c.raw).2.1]

/-- **A settled layout stays** while the nodes and the pins are those of the last relaxation. -/
theorem LaidOutFor.atRest {c₀ c : ForceCall F} (h : LaidOutFor le c₀) (hf : le.frozen = ∅)
    (hset : le.isSettled "force" = true) (hids : c.sameSet c₀)
    (hpins : pinsEqual c₀.args.pins c.args.pins = true)
    (hexit : (le.trackBurst "force" c.raw).2.2 = false) :
    (∀ id, (le.forceStep c).forcePosition id = le.forcePosition id)
      ∧ (le.forceStep c).isSettled "force" = true := by
  have hpos : ∀ id, (le.beforeGate c).forcePosition id = le.forcePosition id := by
    intro id
    unfold forcePosition
    rw [(beforeGate_frame le c).1]
  have hset' : (le.beforeGate c).isSettled "force" = true := (beforeGate_settled hexit).trans hset
  have hgate := h.beforeGate c
  rw [forceStep_eq hf]
  split
  · rename_i hrel
    -- the gate is open only over no node, where nothing is laid out
    have hnil : c.raw.nodes = [] := by
      by_contra hne
      have hne₀ : c₀.raw.nodes ≠ [] := by
        intro h0
        have hsize := ForceCall.size_eq c c₀ hids
        unfold ForceCall.size at hsize
        rw [h0] at hsize
        exact hne (List.length_eq_zero_iff.mp hsize)
      have hskip : (le.beforeGate c).forceCanSkip "force" c.raw c.args.pins = true := by
        unfold forceCanSkip
        rw [hset', hgate.laid, hgate.pins, hgate.sig hne₀, hids.sig]
        simpa using hpins
      unfold relaxes at hrel
      rw [hskip] at hrel
      cases hrel
    unfold relaxed stepForce
    dsimp only
    rw [hnil, if_pos (by rfl)]
    refine ⟨fun id => ?_, settled_of_insert rfl⟩
    rw [← hpos id]
    unfold forcePosition laidOut
    dsimp only
    rw [AList.lookup_insert]
    rfl
  · exact ⟨hpos, hset'⟩

/--
**Burst freezes the elders, and rest is rest.** A node that had a position when a burst
began and is in every snapshot and no pin map of its calls keeps that position through
all of them; and a settled layout given the nodes and pins of its last relaxation changes
no position, unless a burst ends there.
-/
theorem burst_freezesElders (rng : Nat → F) :
    (∀ {pre mid : List (ForceCall F)} {id : String} {v : Vec F}, BurstRun rng pre mid →
        (forceRun rng pre).forcePosition id = some v →
        (∀ c ∈ mid, id ∈ c.raw.nodes.map Node.ip) → (∀ c ∈ mid, c.args.pins.lookup id = none) →
        ∀ {done rest}, mid = done ++ rest → (forceRun rng (pre ++ done)).forcePosition id = some v)
      ∧ ∀ {done : List (ForceCall F)} {c₀ c : ForceCall F}, LastRelaxed rng done c₀ →
          (forceRun rng done).isSettled "force" = true → c.sameSet c₀ →
          pinsEqual c₀.args.pins c.args.pins = true →
          ((forceRun rng done).trackBurst "force" c.raw).2.2 = false →
          (∀ id, (forceRun rng (done ++ [c])).forcePosition id = (forceRun rng done).forcePosition id)
            ∧ (forceRun rng (done ++ [c])).isSettled "force" = true := by
  constructor
  · intro pre mid id v h hv hid hpin done rest hmid
    exact (h.elder hv hid hpin hmid).1
  · intro done c₀ c hlast hset hids hpins hexit
    rw [forceRun_concat]
    exact hlast.laidOutFor.atRest (forceRun_frozen rng done) hset hids hpins hexit

end Frozen

/-- One host, then a scan around it: the host stays, and it was at rest before. -/
theorem burst_freezesElders_scan :
    (forceRun (fun _ => (0 : Int)) ([overHosts ["10.9.9.9"]]
        ++ [overHosts ("10.9.9.9" :: scanned)])).forcePosition "10.9.9.9" = some ⟨0, 0⟩
      ∧ (forceRun (fun _ => (0 : Int)) ([overHosts ["10.9.9.9"]]
        ++ [overHosts ["10.9.9.9"]])).isSettled "force" = true := by
  obtain ⟨helders, hrest⟩ := burst_freezesElders (fun _ => (0 : Int))
  have hplaced : ((forceRun (fun _ => (0 : Int)) [overHosts ["10.9.9.9"]]).forcePosition
      "10.9.9.9").map (fun v => (v.x, v.y)) = some (0, 0) := by decide +kernel
  obtain ⟨v, hv, hxy⟩ := Option.map_eq_some_iff.mp hplaced
  obtain ⟨x, y⟩ := v
  obtain ⟨rfl, rfl⟩ := Prod.mk.inj hxy
  have hrun : BurstRun (fun _ => (0 : Int)) [overHosts ["10.9.9.9"]]
      [overHosts ("10.9.9.9" :: scanned)] := by
    refine ⟨by decide +kernel, fun {done c rest} hmid => ?_⟩
    cases done with
    | nil =>
      cases hmid
      decide +kernel
    | cons d done => cases done <;> cases hmid
  have hlast : LastRelaxed (fun _ => (0 : Int)) [overHosts ["10.9.9.9"]] (overHosts ["10.9.9.9"]) := by
    refine ⟨[], [], rfl, by decide +kernel, fun {front c rest} hmid => ?_⟩
    cases front <;> cases hmid
  constructor
  · refine helders hrun hv (fun c hc => ?_) (fun c hc => ?_) (List.append_nil _).symm
    · rw [List.mem_singleton.mp hc]
      exact List.mem_cons_self
    · rw [List.mem_singleton.mp hc]
      rfl
  · exact (hrest hlast (by decide +kernel) rfl (by decide +kernel) (by decide +kernel)).2

end LayoutEngine

end Etherchimp
