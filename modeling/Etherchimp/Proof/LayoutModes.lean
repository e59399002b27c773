import Etherchimp.Graph.Layout
import Etherchimp.Server.Control

/-!
# Which modes are laid out

A step of a mode leaves a position for every node under the mode's name, and the mode
settled once its computation is, for each of the six modes with a branch of their own.
Any other mode runs the force layout, which keeps its positions and its flag under
`"force"`: nothing is ever stored under the mode's own name.
-/

namespace Etherchimp

open Grouping

section Positions

variable {F : Type}

/-- A position is stored for every node. -/
def Covers (pos : KeyedMap String (Vec F)) (ids : List String) : Prop :=
  ∀ id ∈ ids, (pos.lookup id).isSome

/-- Storing positions keeps those already there. -/
theorem isSome_insertAll {α : Type} (key : α → String) (val : KeyedMap String (Vec F) → α → Vec F)
    (l : List α) {pos : KeyedMap String (Vec F)} {id : String}
    (h : (pos.lookup id).isSome ∨ ∃ a ∈ l, key a = id) :
    ((l.foldl (fun pos a => pos.insert (key a) (val pos a)) pos).lookup id).isSome := by
  have keep : ∀ (pos : KeyedMap String (Vec F)) (a : α), (pos.lookup id).isSome →
      ((pos.insert (key a) (val pos a)).lookup id).isSome :=
    fun pos a h => (isSome_insert pos _ _ _).mpr (.inr h)
  rcases h with h | ⟨a, ha, rfl⟩
  · exact foldl_keeps keep l h
  · exact foldl_establishes keep ha (fun pos => (isSome_insert pos _ _ _).mpr (.inl rfl)) pos

theorem exists_mem_zipIdx {α : Type} {l : List α} {a : α} (ha : a ∈ l) : ∃ i, (a, i) ∈ l.zipIdx := by
  obtain ⟨i, hi, rfl⟩ := List.getElem_of_mem ha
  exact ⟨i, List.mk_mem_zipIdx_iff_getElem?.mpr (List.getElem?_eq_getElem hi)⟩

/-- The same with the index at hand. -/
theorem isSome_insertZip {α : Type} (key : α → String) (val : α × Nat → Vec F) (l : List α)
    {pos : KeyedMap String (Vec F)} {id : String}
    (h : (pos.lookup id).isSome ∨ ∃ a ∈ l, key a = id) :
    ((l.zipIdx.foldl (fun pos a => pos.insert (key a.1) (val a)) pos).lookup id).isSome := by
  refine isSome_insertAll (fun a : α × Nat => key a.1) (fun _ a => val a) l.zipIdx (h.imp_right ?_)
  rintro ⟨a, ha, hid⟩
  obtain ⟨i, hi⟩ := exists_mem_zipIdx ha
  exact ⟨(a, i), hi, hid⟩

end Positions

namespace LayoutEngine

variable {F : Type} [FloatMath F]

/-! ## Every layout places every node -/

theorem circlePositions_covers (raw : RawSnapshot) :
    Covers (circlePositions raw : KeyedMap String (Vec F)) (raw.nodes.map Node.ip) := by
  intro k hk
  unfold circlePositions sortedIDs
  exact isSome_insertZip id _ _ (.inr ⟨k, (List.mem_insertionSort _).mpr hk, rfl⟩)

theorem hierarchyPositions_covers (go : Runtime) (raw : RawSnapshot) :
    Covers (hierarchyPositions go raw : KeyedMap String (Vec F)) (raw.nodes.map Node.ip) := by
  intro k hk
  obtain ⟨n, hn, rfl⟩ := List.mem_map.mp hk
  unfold hierarchyPositions
  refine isSome_insertZip Prod.fst _ _ (.inr ⟨(n.ip, hierarchyScore (degreesOf raw) n.ip), ?_, rfl⟩)
  rw [Runtime.mem_sortSlice]
  exact List.mem_map_of_mem hn

/-- Placing one /24 keeps what is placed. -/
theorem placeSubnet_keeps (go : Runtime) (raw : RawSnapshot) (vlanByIP : KeyedMap String UInt16)
    (count : Nat) {k : String} (s : KeyedMap String (Vec F) × List (SubnetIsland F))
    (g : (String × List String) × Nat) (h : (s.1.lookup k).isSome ∨ k ∈ g.1.2) :
    ((placeSubnet go raw vlanByIP count s g).1.lookup k).isSome := by
  unfold placeSubnet
  exact isSome_insertZip id _ _ (h.imp_right fun hk => ⟨k, hk, rfl⟩)

theorem subnetPositions_covers (go : Runtime) (raw : RawSnapshot)
    (vlanByIP : KeyedMap String UInt16) :
    Covers (subnetPositions (F := F) go raw vlanByIP).1 (raw.nodes.map Node.ip) := by
  intro k hk
  obtain ⟨n, hn, rfl⟩ := List.mem_map.mp hk
  unfold subnetPositions
  -- the group of the node, and where it stands in the order
  have hg := lookup_groups_of_mem
    (fun n => if primarySubnet24 n = "" then "unknown" else primarySubnet24 n) Node.ip hn
  generalize hkey : (if primarySubnet24 n = "" then "unknown" else primarySubnet24 n) = key at hg
  have hkeys : key ∈ (subnetGroups raw).keys := (KeyedMap.mem_keys_iff _ _).mpr ⟨_, hg⟩
  have hmem : n.ip ∈ ((subnetGroups raw).lookup key).getD [] := by
    unfold subnetGroups
    rw [hg]
    exact List.mem_map_of_mem (List.mem_filter.mpr ⟨hn, by simp [hkey]⟩)
  obtain ⟨i, hi⟩ := exists_mem_zipIdx (List.mem_map_of_mem
    (f := fun key => (key, (((subnetGroups raw).lookup key).getD []).insertionSort (· ≤ ·)))
    ((List.mem_insertionSort (· ≤ ·)).mpr hkeys))
  refine foldl_establishes
    (P := fun s : KeyedMap String (Vec F) × List (SubnetIsland F) => (s.1.lookup n.ip).isSome)
    (fun s g h => ?_) hi (fun s => ?_) _
  · exact placeSubnet_keeps go raw vlanByIP _ s g (.inl h)
  · exact placeSubnet_keeps go raw vlanByIP _ s _ (.inr ((List.mem_insertionSort _).mpr hmem))

/-- Placing one star system keeps what is placed and places its members. -/
theorem placeSystem_keeps (count : Nat) {k : String} (pos : KeyedMap String (Vec F))
    (s : (String × List Node) × Nat)
    (h : (pos.lookup k).isSome ∨ ∃ n ∈ s.1.2, n.ip = k) :
    ((placeSystem count pos s).lookup k).isSome := by
  obtain ⟨⟨key, members⟩, i⟩ := s
  unfold placeSystem
  match members with
  | [n] =>
    refine (isSome_insert _ _ _ _).mpr (h.symm.imp_left ?_)
    rintro ⟨n', hn', rfl⟩
    rw [List.mem_singleton.mp hn']
  | [] => exact isSome_insertAll Node.ip _ [] h
  | n :: n' :: l => exact isSome_insertAll Node.ip _ (n :: n' :: l) h

omit [FloatMath F] in
theorem honourPins_covers {pos : KeyedMap String (Vec F)} (pins : KeyedMap String (Vec F))
    {ids : List String} (h : Covers pos ids) : Covers (honourPins pos pins) ids := by
  intro k hk
  unfold honourPins
  refine foldl_keeps (P := fun pos : KeyedMap String (Vec F) => (pos.lookup k).isSome) ?_ _ (h k hk)
  intro pos p hp
  by_cases hold : (pos.lookup p.1).isSome
  · rw [if_pos hold]
    exact (isSome_insert _ _ _ _).mpr (.inr hp)
  · rw [if_neg hold]
    exact hp

theorem solarPositions_covers [RuneCase] (go : Runtime) (raw : RawSnapshot) :
    Covers (solarPositions go raw : KeyedMap String (Vec F)) (raw.nodes.map Node.ip) := by
  intro k hk
  obtain ⟨n, hn, rfl⟩ := List.mem_map.mp hk
  unfold solarPositions
  generalize hl : go.sortSlice (fun a b : String × List Node => decide (a.1 < b.1)) _ = sysList
  by_cases hbelt : onBelt n
  · -- on the belt, before any system is placed
    refine foldl_keeps (P := fun pos : KeyedMap String (Vec F) => (pos.lookup n.ip).isSome)
      (fun pos s h => ?_) _ ?_
    · exact placeSystem_keeps _ pos s (.inl h)
    · exact isSome_insertZip Node.ip _ _ (.inr ⟨n, List.mem_filter.mpr ⟨hn, hbelt⟩, rfl⟩)
  · have hmem : n ∈ raw.nodes.filter fun n => !onBelt n :=
      List.mem_filter.mpr ⟨hn, by simp [hbelt]⟩
    obtain ⟨s, hs, hns⟩ : ∃ s ∈ sysList, n ∈ s.2 := by
      rw [← hl]
      have hg := (Runtime.mem_rangeOf go).mpr (lookup_groups_of_mem solarSystemKey id hmem)
      refine ⟨_, (Runtime.mem_sortSlice go).mpr (List.mem_map_of_mem hg), ?_⟩
      rw [Runtime.mem_sortSlice, List.map_id]
      exact List.mem_filter.mpr ⟨hmem, by simp⟩
    obtain ⟨i, hi⟩ := exists_mem_zipIdx hs
    refine foldl_establishes (P := fun pos : KeyedMap String (Vec F) => (pos.lookup n.ip).isSome)
      (fun pos s h => ?_) hi (fun pos => ?_) _
    · exact placeSystem_keeps _ pos s (.inl h)
    · exact placeSystem_keeps _ pos _ (.inr ⟨n, hns, rfl⟩)

/-! ## A force step -/

/-- Placing a node keeps what is placed. -/
theorem seedNode_keeps (n : Nat) (neighbors : KeyedMap String (List String))
    (departed : KeyedMap String (Vec F)) (burst : Bool) {k : String} (s : Seeding F) (id : String)
    (h : (s.pos.lookup k).isSome ∨ id = k) :
    ((seedNode n neighbors departed burst s id).pos.lookup k).isSome := by
  unfold seedNode
  cases hp : s.pos.lookup id with
  | some p =>
    rcases h with h | rfl
    · exact h
    · rw [hp]
      rfl
  | none => exact (isSome_insert _ _ _ _).mpr (h.symm.imp_left Eq.symm)

omit [FloatMath F] in
theorem applyPins_covers (ids : List String) {pos : KeyedMap String (Vec F)}
    (pins : KeyedMap String (Vec F)) (h : Covers pos ids) : Covers (applyPins ids pos pins) ids := by
  intro k hk
  unfold applyPins
  refine foldl_keeps (P := fun pos : KeyedMap String (Vec F) => (pos.lookup k).isSome) ?_ _ (h k hk)
  intro pos p hp
  by_cases hold : p.1 ∈ ids
  · rw [if_pos hold]
    exact (isSome_insert _ _ _ _).mpr (.inr hp)
  · rw [if_neg hold]
    exact hp

/-- What is stored under a mode once its computation ran. -/
structure Finished (le : LayoutEngine F) (mode : String) (raw : RawSnapshot) : Prop where
  placed : ∃ pos, le.positions.lookup mode = some pos ∧ Covers pos (raw.nodes.map Node.ip)
  /-- The flag tells whether the last relaxation still moved something. -/
  settled : raw.nodes ≠ [] → ∃ d, le.moved.lookup mode = some d
    ∧ le.isSettled mode = FloatMath.lt d forceEpsilon
  idle : raw.nodes = [] → le.isSettled mode = true

omit [FloatMath F] in
theorem settled_of_insert {le : LayoutEngine F} {mode : String} {t : KeyedMap String Bool}
    (h : le.settled = t.insert mode true) : le.isSettled mode = true := by
  unfold isSettled
  rw [h, AList.lookup_insert]
  rfl

theorem stepForce_finished (le : LayoutEngine F) (raw : RawSnapshot)
    (pins : KeyedMap String (Vec F)) (radii : Option (KeyedMap String F))
    (anchors : Option (KeyedMap String (Vec F))) (mode : String) (burst : Bool) :
    (le.stepForce raw pins radii anchors mode burst).Finished mode raw := by
  unfold stepForce
  simp only []
  by_cases h0 : (raw.nodes.map Node.ip).length = 0
  · rw [if_pos h0]
    have hnil : raw.nodes = [] := List.map_eq_nil_iff.mp (List.length_eq_zero_iff.mp h0)
    refine ⟨⟨_, AList.lookup_insert _, ?_⟩, fun h => absurd hnil h, fun _ => settled_of_insert rfl⟩
    rw [hnil]
    exact fun k hk => absurd hk List.not_mem_nil
  · rw [if_neg h0]
    refine ⟨⟨_, AList.lookup_insert _, ?_⟩, fun _ => ⟨_, AList.lookup_insert _, ?_⟩, fun h => ?_⟩
    · -- seeded, then kept by the pins and by writing the relaxed positions back
      intro k hk
      unfold writeBack
      refine isSome_insertAll (fun r : String × Vec F => r.1) (fun _ r => r.2) _ (.inl ?_)
      refine applyPins_covers _ pins (fun k hk => ?_) k hk
      rw [KeyedMap.lookup_filterKey, if_pos (decide_eq_true hk)]
      refine foldl_establishes (P := fun s : Seeding F => (s.pos.lookup k).isSome)
        (fun s id h => ?_) hk (fun s => ?_) _
      · exact seedNode_keeps _ _ _ burst s id (.inl h)
      · exact seedNode_keeps _ _ _ burst s k (.inr rfl)
    · unfold isSettled
      rw [AList.lookup_insert]
      rfl
    · rw [h] at h0
      exact absurd rfl h0

/-- A force step writes its own mode's tables only. -/
theorem stepForce_frame (le : LayoutEngine F) (raw : RawSnapshot)
    (pins : KeyedMap String (Vec F)) (radii : Option (KeyedMap String F))
    (anchors : Option (KeyedMap String (Vec F))) {mode mode' : String} (burst : Bool)
    (hne : mode' ≠ mode) :
    (le.stepForce raw pins radii anchors mode burst).positions.lookup mode'
        = le.positions.lookup mode'
      ∧ (le.stepForce raw pins radii anchors mode burst).settled.lookup mode'
        = le.settled.lookup mode' := by
  unfold stepForce
  simp only []
  by_cases h0 : (raw.nodes.map Node.ip).length = 0
  · rw [if_pos h0]
    exact ⟨AList.lookup_insert_ne hne, AList.lookup_insert_ne hne⟩
  · rw [if_neg h0]
    exact ⟨AList.lookup_insert_ne hne, AList.lookup_insert_ne hne⟩

theorem stepForce_frozen (le : LayoutEngine F) (raw : RawSnapshot)
    (pins : KeyedMap String (Vec F)) (radii : Option (KeyedMap String F))
    (anchors : Option (KeyedMap String (Vec F))) (mode : String) (burst : Bool) :
    (le.stepForce raw pins radii anchors mode burst).frozen = le.frozen := by
  unfold stepForce
  simp only []
  by_cases h0 : (raw.nodes.map Node.ip).length = 0
  · rw [if_pos h0]
    rfl
  · rw [if_neg h0]

/-! ## The gate of the default branch -/

theorem trackBurst_keeps (le : LayoutEngine F) (mode : String) (raw : RawSnapshot) :
    (le.trackBurst mode raw).1.positions = le.positions
      ∧ (le.trackBurst mode raw).1.settled = le.settled
      ∧ (le.trackBurst mode raw).1.frozen = le.frozen := by
  have hrec : (le.recordSize mode raw).positions = le.positions
      ∧ (le.recordSize mode raw).settled = le.settled
      ∧ (le.recordSize mode raw).frozen = le.frozen := ⟨rfl, rfl, rfl⟩
  unfold trackBurst
  generalize le.recordSize mode raw = le₁ at hrec ⊢
  simp only []
  split
  · split <;> exact hrec
  · split <;> exact hrec

/--
The default branch skips, with the flag up under the mode's own name, or runs a force
step under `"force"`. Either way the engine it goes on from has the old positions, and
the old flags but for `"force"`.
-/
theorem stepDefault_cases (le : LayoutEngine F) (raw : RawSnapshot) (mode : String)
    (pins : KeyedMap String (Vec F)) (radii : Option (KeyedMap String F)) :
    ∃ le' : LayoutEngine F, le'.positions = le.positions ∧ le'.frozen = le.frozen
      ∧ (∀ m, m ≠ "force" → le'.settled.lookup m = le.settled.lookup m)
      ∧ ((le.stepDefault raw mode pins radii = le' ∧ le'.isSettled mode = true
          ∧ (le'.positions.lookup mode).isSome)
        ∨ ∃ burst, le.stepDefault raw mode pins radii
            = le'.stepForce raw pins radii none "force" burst) := by
  obtain ⟨hpos, hset, hfro⟩ := le.trackBurst_keeps "force" raw
  unfold stepDefault
  generalize le.trackBurst "force" raw = r at hpos hset hfro
  obtain ⟨le₁, inBurst, exitReheat⟩ := r
  simp only []
  generalize hle₂ : (if exitReheat = true then _ else le₁) = le₂
  have h₂ : le₂.positions = le.positions ∧ le₂.frozen = le.frozen
      ∧ ∀ m, m ≠ "force" → le₂.settled.lookup m = le.settled.lookup m := by
    rw [← hle₂]
    by_cases hx : exitReheat = true
    · rw [if_pos hx]
      refine ⟨hpos, hfro, fun m hne => ?_⟩
      rw [AList.lookup_insert_ne hne]
      exact congrArg (AList.lookup m) hset
    · rw [if_neg hx]
      exact ⟨hpos, hfro, fun m _ => congrArg (AList.lookup m) hset⟩
  by_cases hskip : le₂.forceCanSkip mode raw pins = true
  · rw [if_pos hskip]
    unfold forceCanSkip at hskip
    simp only [Bool.and_eq_true] at hskip
    exact ⟨le₂, h₂.1, h₂.2.1, h₂.2.2, .inl ⟨rfl, hskip.1.1.1, hskip.1.1.2⟩⟩
  · rw [if_neg hskip]
    exact ⟨{ le₂ with pins := le₂.pins.insert mode pins }, h₂.1, h₂.2.1, h₂.2.2,
      .inr ⟨inBurst, rfl⟩⟩

/-! ## Laid out -/

/-- The layouts that are computed, not relaxed. -/
def computedModes : List String := ["circular", "hierarchical", "subnet", "solar"]

/-- The modes with a layout of their own. -/
def layoutModes : List String := "force" :: "gravity" :: computedModes

/-- The name a relaxed mode keeps its state under. -/
def relaxKey (mode : String) : String := if mode = "gravity" then "gravity" else "force"

/--
The computation behind a mode that has been stepped is settled: it is a computed layout,
there is nothing to relax, or the last relaxation moved less than `forceEpsilon`.
-/
def Converged (le : LayoutEngine F) (mode : String) (raw : RawSnapshot) : Prop :=
  mode ∈ computedModes ∨ raw.nodes = []
    ∨ ∃ d, le.moved.lookup (relaxKey mode) = some d ∧ FloatMath.lt d forceEpsilon = true

/-- Every node has a stored position, and a settled mode is reported settled. -/
structure LaidOut (le : LayoutEngine F) (mode : String) (raw : RawSnapshot) : Prop where
  placed : ∀ n ∈ raw.nodes, ∃ pos, le.positions.lookup mode = some pos ∧ (pos.lookup n.ip).isSome
  settled : Converged le mode raw → le.unsettled [mode] = false

omit [FloatMath F] in
theorem unsettled_singleton (le : LayoutEngine F) (mode : String) :
    le.unsettled [mode] = false ↔ le.isSettled mode = true := by
  simp [unsettled]

theorem LaidOut.of_settled {le : LayoutEngine F} {mode : String} {raw : RawSnapshot}
    {pos : KeyedMap String (Vec F)} (hpos : le.positions.lookup mode = some pos)
    (hcov : Covers pos (raw.nodes.map Node.ip)) (hset : le.isSettled mode = true) :
    LaidOut le mode raw :=
  ⟨fun n hn => ⟨pos, hpos, hcov n.ip (List.mem_map_of_mem hn)⟩,
    fun _ => (unsettled_singleton le mode).mpr hset⟩

theorem Finished.laidOut {le : LayoutEngine F} {mode : String} {raw : RawSnapshot}
    (h : le.Finished mode raw) (hkey : relaxKey mode = mode) (hmode : mode ∉ computedModes) :
    LaidOut le mode raw := by
  obtain ⟨pos, hpos, hcov⟩ := h.placed
  refine ⟨fun n hn => ⟨pos, hpos, hcov n.ip (List.mem_map_of_mem hn)⟩, fun hc => ?_⟩
  rw [unsettled_singleton]
  by_cases h0 : raw.nodes = []
  · exact h.idle h0
  · obtain ⟨d, hd, hset⟩ := h.settled h0
    rcases hc with hc | hc | ⟨d', hd', hlt⟩
    · exact absurd hc hmode
    · exact absurd hc h0
    · rw [hkey, hd] at hd'
      rw [hset, Option.some.inj hd', hlt]

/-- What is stored under the mode covers the snapshot, and nothing is frozen. -/
structure Kept (le : LayoutEngine F) (mode : String) (raw : RawSnapshot) : Prop where
  frozen : le.frozen = ∅
  covers : ∀ pos, le.positions.lookup mode = some pos → Covers pos (raw.nodes.map Node.ip)

section Steps

variable {go : Runtime} {raw : RawSnapshot} {le : LayoutEngine F}

/-- A computed layout is there after a step, and up to date. -/
theorem Kept.computed {mode : String} (h : Kept le mode raw) {pos : KeyedMap String (Vec F)}
    {le' : LayoutEngine F} (hfro : le'.frozen = le.frozen)
    (hpos : le'.positions.lookup mode = some pos) (hcov : Covers pos (raw.nodes.map Node.ip))
    (hset : le'.isSettled mode = true) : Kept le' mode raw ∧ LaidOut le' mode raw := by
  refine ⟨⟨hfro.trans h.frozen, fun p hp => ?_⟩, .of_settled hpos hcov hset⟩
  rw [hpos] at hp
  exact Option.some.inj hp ▸ hcov

theorem Kept.markSettled {mode : String} (h : Kept le mode raw) (hup : le.upToDate mode raw = true) :
    Kept (le.markSettled mode) mode raw ∧ LaidOut (le.markSettled mode) mode raw := by
  unfold upToDate at hup
  rw [Bool.and_eq_true] at hup
  obtain ⟨pos, hpos⟩ := Option.isSome_iff_exists.mp hup.2
  exact h.computed rfl hpos (h.covers pos hpos) (settled_of_insert rfl)

theorem Kept.finished {mode : String} (h : Kept le mode raw) {le' : LayoutEngine F}
    (hfro : le'.frozen = le.frozen) (hfin : le'.Finished mode raw) (hkey : relaxKey mode = mode)
    (hmode : mode ∉ computedModes) : Kept le' mode raw ∧ LaidOut le' mode raw := by
  refine ⟨⟨hfro.trans h.frozen, fun p hp => ?_⟩, hfin.laidOut hkey hmode⟩
  obtain ⟨pos, hpos, hcov⟩ := hfin.placed
  rw [hpos] at hp
  exact Option.some.inj hp ▸ hcov

variable [RuneCase]

/-- One step of a mode with a layout of its own. -/
theorem Kept.step {mode : String} (h : Kept le mode raw) (hmode : mode ∈ layoutModes)
    (args : StepArgs F) :
    Kept (stepMode go raw args le mode) mode raw ∧ LaidOut (stepMode go raw args le mode) mode raw := by
  have hopen : (le.frozen.lookup mode).getD false = false := by
    rw [h.frozen]
    rfl
  unfold stepMode
  rw [hopen, if_neg Bool.false_ne_true]
  simp only [layoutModes, computedModes, List.mem_cons, List.not_mem_nil, or_false] at hmode
  rcases hmode with rfl | rfl | rfl | rfl | rfl | rfl
  · -- force
    change Kept (le.stepDefault raw "force" args.pins args.radii) "force" raw
      ∧ LaidOut (le.stepDefault raw "force" args.pins args.radii) "force" raw
    obtain ⟨le', hpos, hfro, -, hrun⟩ :=
      le.stepDefault_cases raw "force" args.pins args.radii
    rcases hrun with ⟨hskip, hset, hsome⟩ | ⟨burst, hrun⟩
    · obtain ⟨pos, hp⟩ := Option.isSome_iff_exists.mp hsome
      rw [hskip]
      exact h.computed hfro hp (h.covers pos (hpos ▸ hp)) hset
    · rw [hrun]
      exact h.finished ((stepForce_frozen ..).trans hfro) (stepForce_finished ..) rfl (by decide)
  · -- gravity
    simp only []
    by_cases hskip : le.forceCanSkip "gravity" raw args.pins = true
    · rw [if_pos hskip]
      unfold forceCanSkip at hskip
      simp only [Bool.and_eq_true] at hskip
      obtain ⟨pos, hp⟩ := Option.isSome_iff_exists.mp hskip.1.1.2
      exact h.computed rfl hp (h.covers pos hp) hskip.1.1.1
    · rw [if_neg hskip]
      unfold stepGravityIslands
      simp only []
      refine h.finished ((stepForce_frozen ..).trans ?_) (stepForce_finished ..) rfl (by decide)
      split <;> rfl
  · -- circular
    simp only [layoutCircular]
    by_cases hup : le.upToDate "circular" raw = true
    · rw [if_pos hup]
      exact h.markSettled hup
    · rw [if_neg hup]
      exact h.computed rfl (AList.lookup_insert _) (circlePositions_covers raw) (settled_of_insert rfl)
  · -- hierarchical
    simp only [layoutHierarchical]
    by_cases hup : le.upToDate "hierarchical" raw = true
    · rw [if_pos hup]
      exact h.markSettled hup
    · rw [if_neg hup]
      exact h.computed rfl (AList.lookup_insert _) (hierarchyPositions_covers go raw)
        (settled_of_insert rfl)
  · -- subnet
    simp only [layoutSubnet]
    by_cases hup : le.upToDate "subnet" raw = true
    · rw [if_pos hup]
      exact h.markSettled hup
    · rw [if_neg hup]
      exact h.computed rfl (AList.lookup_insert _) (subnetPositions_covers go raw args.vlanByIP)
        (settled_of_insert rfl)
  · -- solar
    simp only [layoutSolar]
    by_cases hup : le.upToDate "solar" raw = true
    · rw [if_pos hup]
      unfold upToDate at hup
      rw [Bool.and_eq_true] at hup
      obtain ⟨pos, hp⟩ := Option.isSome_iff_exists.mp hup.2
      refine h.computed rfl (AList.lookup_insert _) ?_ (settled_of_insert rfl)
      rw [hp]
      exact honourPins_covers args.pins (h.covers pos hp)
    · rw [if_neg hup]
      exact h.computed rfl (AList.lookup_insert _)
        (honourPins_covers args.pins (solarPositions_covers go raw)) (settled_of_insert rfl)

/-- Nothing is stored under the mode's name. -/
structure Absent (le : LayoutEngine F) (mode : String) : Prop where
  frozen : le.frozen = ∅
  positions : le.positions.lookup mode = none
  settled : le.settled.lookup mode = none

/-- One step of any other mode stores nothing under its name. -/
theorem Absent.step {mode : String} (h : Absent le mode) (hmode : mode ∉ layoutModes)
    (args : StepArgs F) : Absent (stepMode go raw args le mode) mode := by
  simp only [layoutModes, computedModes, List.mem_cons, List.not_mem_nil, or_false, not_or] at hmode
  obtain ⟨hforce, hgravity, hcircular, hhier, hsubnet, hsolar⟩ := hmode
  have hopen : (le.frozen.lookup mode).getD false = false := by
    rw [h.frozen]
    rfl
  unfold stepMode
  rw [hopen, if_neg Bool.false_ne_true]
  split
  · exact absurd rfl hcircular
  · exact absurd rfl hgravity
  · exact absurd rfl hhier
  · exact absurd rfl hsubnet
  · exact absurd rfl hsolar
  · obtain ⟨le', hpos, hfro, hset, hrun⟩ := le.stepDefault_cases raw mode args.pins args.radii
    have hpos' : le'.positions.lookup mode = none := hpos ▸ h.positions
    rcases hrun with ⟨-, -, hsome⟩ | ⟨burst, hrun⟩
    · -- it cannot skip: the gate asks for positions under the mode
      rw [hpos'] at hsome
      exact absurd hsome nofun
    · rw [hrun]
      obtain ⟨hp, hs⟩ :=
        le'.stepForce_frame raw args.pins args.radii none burst hforce
      exact ⟨((stepForce_frozen ..).trans hfro).trans h.frozen, hp.trans hpos',
        (hs.trans (hset mode hforce)).trans h.settled⟩

omit [RuneCase] in
/-- Neither half of the law holds when nothing is stored. -/
theorem Absent.not_laidOut {mode : String} (h : Absent le mode) : ¬ LaidOut le mode raw := by
  intro hl
  cases h0 : raw.nodes with
  | nil =>
    -- nothing to place, but the mode is not reported settled
    have hset := (unsettled_singleton le mode).mp (hl.settled (.inr (.inl h0)))
    unfold isSettled at hset
    rw [h.settled] at hset
    exact absurd hset Bool.false_ne_true
  | cons n l =>
    obtain ⟨pos, hpos, -⟩ := hl.placed n (h0 ▸ List.mem_cons_self)
    rw [h.positions] at hpos
    exact absurd hpos nofun

/-! ## Whole runs -/

/-- A step, with the order it finds its maps and sorts in. -/
structure StepCall (F : Type) where
  go : Runtime := Runtime.stable
  args : StepArgs F := {}

variable (raw) in
/-- The engine of a client after some steps over one snapshot in one mode. -/
def stepped (rng : Nat → F) (mode : String) (calls : List (StepCall F)) : LayoutEngine F :=
  Run.exec (fun le c => LayoutEngine.step c.go raw [mode] le c.args) (newLayoutEngine rng) calls

theorem stepped_concat (rng : Nat → F) (mode : String) (calls : List (StepCall F))
    (c : StepCall F) :
    stepped raw rng mode (calls ++ [c])
      = stepMode c.go raw c.args (stepped raw rng mode calls) mode := Run.exec_concat ..

theorem kept_stepped (rng : Nat → F) {mode : String} (hmode : mode ∈ layoutModes)
    (calls : List (StepCall F)) : Kept (stepped raw rng mode calls) mode raw := by
  induction calls using List.reverseRecOn with
  | nil => exact ⟨rfl, fun pos hpos => absurd hpos nofun⟩
  | append_singleton calls c ih =>
    rw [stepped_concat]
    exact (ih.step hmode c.args).1

theorem absent_stepped (rng : Nat → F) {mode : String} (hmode : mode ∉ layoutModes)
    (calls : List (StepCall F)) : Absent (stepped raw rng mode calls) mode := by
  induction calls using List.reverseRecOn with
  | nil => exact ⟨rfl, rfl, rfl⟩
  | append_singleton calls c ih =>
    rw [stepped_concat]
    exact ih.step hmode c.args

variable (raw) in
/-- The mode is laid out after each step of the run. -/
def AlwaysLaidOut (rng : Nat → F) (mode : String) (calls : List (StepCall F)) : Prop :=
  ∀ done c rest, calls = done ++ c :: rest → LaidOut (stepped raw rng mode (done ++ [c])) mode raw

/--
**A mode a client sets is laid out when it has a branch of its own**, and never
otherwise: whatever the snapshot, the random numbers, the orders of maps and sorts and
what each step is given.
-/
theorem laidOut_iff (raw : RawSnapshot) (rng : Nat → F) (c : Client F) (m : String)
    (hm : m ≠ "") (calls : List (StepCall F)) :
    AlwaysLaidOut raw rng (c.applyControl (.setLayout m)).cfg.layoutMode calls
      ↔ m ∈ layoutModes ∨ calls = [] := by
  have hset : (c.applyControl (.setLayout m)).cfg.layoutMode = m := by
    simp only [Client.applyControl, if_neg hm]
  rw [hset]
  constructor
  · intro hall
    by_cases hmode : m ∈ layoutModes
    · exact .inl hmode
    · cases calls with
      | nil => exact .inr rfl
      | cons args rest =>
        exact absurd (hall [] args rest rfl) (absent_stepped rng hmode [args]).not_laidOut
  · rintro (hmode | rfl)
    · intro done c rest _
      rw [stepped_concat]
      exact ((kept_stepped rng hmode done).step hmode c.args).2
    · intro done c rest h
      exact absurd h.symm (by simp)

end Steps

/-- Two hosts and no traffic. -/
def twoHosts : RawSnapshot where
  nodes := ["10.0.0.1", "10.0.0.2"].map fun ip =>
    { ip := ip, hostname := "", ips := [ip], packetCount := 0, byteCount := 0, lastSeen := 0,
      isGroup := false }
  edges := []

/-- The solar layout, stepped twice. -/
theorem laidOut_solar : AlwaysLaidOut twoHosts (fun _ => (0.5 : Float))
    (({} : Client Float).applyControl (.setLayout "solar")).cfg.layoutMode [{}, {}] :=
  (laidOut_iff twoHosts (fun _ => 0.5) {} "solar" (by decide) [{}, {}]).mpr (.inl (by decide))

/-- A mode the engine does not know is accepted, and its nodes are never placed. -/
theorem laidOut_unknown : ¬ ∀ (raw : RawSnapshot) (rng : Nat → Float)
    (c : Client Float) (m : String) (calls : List (StepCall Float)), m ≠ "" →
    (raw.nodes.map Node.ip).Nodup → (∀ n ∈ raw.nodes, n.ip ≠ "") →
    AlwaysLaidOut raw rng (c.applyControl (.setLayout m)).cfg.layoutMode calls := by
  intro h
  have hall := h twoHosts (fun _ => 0.5) {} "spiral" [{}] (by decide) (by decide)
    (by decide)
  exact (absent_stepped (fun _ => 0.5) (by decide) [{}]).not_laidOut (hall [] {} [] rfl)

end LayoutEngine

end Etherchimp
