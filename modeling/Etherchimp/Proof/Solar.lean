import Etherchimp.Lib.Reorder
import Etherchimp.Proof.LayoutModes

/-!
# The solar layout and its history

A solar position is computed from the ids, the subnets and the roles of the nodes: traffic,
edges and the order of the hosts do not enter. The group nodes on the inner belt are the
exception: each is shifted by its place in the snapshot, and snapshots come in the order
of traffic.

Positions are cached by a signature of the ids, and pins are written into the cache. So
what an engine shows is what it computed when the signature last changed, under every pin
it was given since, whether or not the pin is still there.
-/

namespace Etherchimp

open Grouping

namespace LayoutEngine

/-! ## What the positions depend on -/

section Positions

variable {F : Type} [FloatMath F]

/-- Maps that store the same positions. -/
def SamePositions (pos pos' : KeyedMap String (Vec F)) : Prop := ∀ id, pos.lookup id = pos'.lookup id

omit [FloatMath F] in
theorem lookup_placeAll (val : Node → Vec F) (members : List Node) (pos : KeyedMap String (Vec F))
    (id : String) :
    let r := members.foldl (fun pos n => pos.insert n.ip (val n)) pos
    (∃ n ∈ members, n.ip = id ∧ r.lookup id = some (val n))
      ∨ id ∉ members.map Node.ip ∧ r.lookup id = pos.lookup id := by
  intro r
  induction members using List.reverseRecOn with
  | nil => exact .inr ⟨List.not_mem_nil, rfl⟩
  | append_singleton members n ih =>
    have hr : r = (members.foldl (fun pos n => pos.insert n.ip (val n)) pos).insert n.ip (val n) :=
      List.foldl_concat ..
    rw [hr, KeyedMap.lookup_insert_eq, List.map_append, List.mem_append]
    by_cases h : id = n.ip
    · rw [if_pos h]
      exact .inl ⟨n, List.mem_append_right _ (List.mem_singleton.mpr rfl), h.symm, rfl⟩
    · rw [if_neg h]
      refine ih.imp ?_ fun hn => ⟨fun hin => hin.elim hn.1 fun he => ?_, hn.2⟩
      · rintro ⟨m, hm, hid, hl⟩
        exact ⟨m, List.mem_append_left _ hm, hid, hl⟩
      · exact h (List.mem_singleton.mp he)

omit [FloatMath F] in
/-- Nodes placed by id only, in any order. -/
theorem placeAll_same {val : Node → Vec F} (hval : ∀ n n', n.ip = n'.ip → val n = val n')
    {members members' : List Node} (h : (members.map Node.ip).Perm (members'.map Node.ip))
    {pos pos' : KeyedMap String (Vec F)} (hp : SamePositions pos pos') :
    SamePositions (members.foldl (fun pos n => pos.insert n.ip (val n)) pos)
      (members'.foldl (fun pos n => pos.insert n.ip (val n)) pos') := by
  intro id
  rcases lookup_placeAll val members pos id with ⟨n, hn, hid, hl⟩ | ⟨hn, hl⟩ <;>
    rcases lookup_placeAll val members' pos' id with ⟨n', hn', hid', hl'⟩ | ⟨hn', hl'⟩
  · rw [hl, hl', hval n n' (hid.trans hid'.symm)]
  · exact absurd (h.mem_iff.mp (hid ▸ List.mem_map_of_mem hn)) hn'
  · exact absurd (h.mem_iff.mpr (hid' ▸ List.mem_map_of_mem hn')) hn
  · rw [hl, hl', hp id]

/-- A star system is placed by its key, its place and the ids of its members. -/
theorem placeSystem_same (count i : Nat) (key : String) {members members' : List Node}
    (h : (members.map Node.ip).Perm (members'.map Node.ip)) {pos pos' : KeyedMap String (Vec F)}
    (hp : SamePositions pos pos') :
    SamePositions (placeSystem count pos ((key, members), i))
      (placeSystem count pos' ((key, members'), i)) := by
  intro id
  have hlen : members.length = members'.length := by simpa using h.length_eq
  rcases members with _ | ⟨n, _ | ⟨m, l⟩⟩
  · rw [List.length_eq_zero_iff.mp hlen.symm]
    exact hp id
  · -- a lone host
    obtain ⟨n', rfl⟩ := List.length_eq_one_iff.mp hlen.symm
    have hid : n.ip = n'.ip := by simpa using h
    unfold placeSystem
    simp only [KeyedMap.lookup_insert_eq, hid, hp id]
  · rcases members' with _ | ⟨n', _ | ⟨m', l'⟩⟩
    · exact absurd hlen (by simp)
    · exact absurd hlen (by simp)
    · refine placeAll_same (fun n n' hid => ?_) h hp id
      rw [hid]

/-! ## The order of the systems -/

variable [RuneCase]

/-- The star systems in order of their keys, their members in order of their ids. -/
def systemList (go : Runtime) (raw : RawSnapshot) : List (String × List Node) :=
  go.sortSlice (fun a b => a.1 < b.1)
    ((go.rangeOf (solarSystems raw)).map fun s => (s.1, go.sortSlice (fun a b => a.ip < b.ip) s.2))

/-- The group nodes, in the order of the snapshot. -/
def beltIDs (raw : RawSnapshot) : List String := (raw.nodes.filter onBelt).map Node.ip

/-- The other nodes with their star systems. -/
def planets (raw : RawSnapshot) : List (String × String) :=
  (raw.nodes.filter fun n => !onBelt n).map fun n => (solarSystemKey n, n.ip)

/-- Snapshots the solar layout does not tell apart. -/
structure SameSky (raw raw' : RawSnapshot) : Prop where
  belt : beltIDs raw = beltIDs raw'
  planets : (planets raw).Perm (planets raw')

theorem sameSky_refl (raw : RawSnapshot) : SameSky raw raw := ⟨rfl, List.Perm.refl _⟩

variable {go go' : Runtime} {raw raw' : RawSnapshot}

theorem mem_solarSystems_keys {key : String} :
    key ∈ (solarSystems raw).keys ↔ key ∈ (planets raw).map Prod.fst := by
  rw [← AList.mem_keys, ← AList.lookup_isSome, solarSystems, isSome_lookup_groups, planets,
    List.map_map, List.mem_map]
  rfl

/-- The members of a listed system are the planets of its key. -/
theorem systemList_members {s : String × List Node} (hs : s ∈ systemList go raw) :
    (s.2.map Node.ip).Perm (((planets raw).filter fun p => p.1 = s.1).map Prod.snd) := by
  obtain ⟨g, hg, rfl⟩ := List.mem_map.mp ((Runtime.mem_sortSlice go).mp hs)
  have hl := (go.mem_rangeOf).mp hg
  have hmembers := lookup_groups solarSystemKey id hl
  refine ((go.sortSlice_perm _ g.2).map Node.ip).trans (List.Perm.of_eq ?_)
  rw [hmembers, planets, List.filter_map, List.map_map, List.map_map]
  rfl

/-- Every system is listed once, in order of the keys. -/
theorem systemList_keys (go : Runtime) (raw : RawSnapshot) :
    ((systemList go raw).map Prod.fst).Perm (solarSystems raw).keys
      ∧ ((systemList go raw).map Prod.fst).Pairwise fun a b => ¬ b < a := by
  constructor
  · refine ((go.sortSlice_perm _ _).map Prod.fst).trans ?_
    rw [List.map_map]
    exact (go.rangeOf_perm (solarSystems raw)).map Sigma.fst
  · have hpre : Preorders fun a b : String × List Node => decide (a.1 < b.1) := by
      refine ⟨fun a b => ?_, fun a b c hba hcb => ?_⟩
      · rw [decide_eq_false_iff_not, decide_eq_false_iff_not]
        exact (em (a.1 < b.1)).symm.imp_right String.lt_asymm
      · rw [decide_eq_false_iff_not] at hba hcb ⊢
        exact String.not_lt.mpr (String.le_trans (String.not_lt.mp hba) (String.not_lt.mp hcb))
    refine List.pairwise_map.mpr ((go.sortSlice_sorted hpre _).imp fun hab => ?_)
    exact of_decide_eq_false hab

/-- The list of systems is the same up to the order of members with one id. -/
theorem systemList_same (h : SameSky raw raw') :
    List.Forall₂ (fun a b => a.1 = b.1 ∧ (a.2.map Node.ip).Perm (b.2.map Node.ip))
      (systemList go raw) (systemList go' raw') := by
  have hkeys : (systemList go raw).map Prod.fst = (systemList go' raw').map Prod.fst := by
    have hperm : (solarSystems raw).keys.Perm (solarSystems raw').keys := by
      refine (List.perm_ext_iff_of_nodup (AList.keys_nodup _) (AList.keys_nodup _)).mpr fun key => ?_
      rw [mem_solarSystems_keys, mem_solarSystems_keys, (h.planets.map Prod.fst).mem_iff]
    obtain ⟨hp, hs⟩ := systemList_keys go raw
    obtain ⟨hp', hs'⟩ := systemList_keys go' raw'
    refine ((hp.trans hperm).trans hp'.symm).eq_of_pairwise (fun a b _ _ hab hba => ?_) hs hs'
    exact String.le_antisymm (String.not_lt.mp hab) (String.not_lt.mp hba)
  refine Reorder.forall₂_of_map_eq hkeys fun a ha b hb hab => ⟨hab, ?_⟩
  refine (systemList_members ha).trans (List.Perm.trans ?_ (systemList_members hb).symm)
  rw [hab]
  exact (h.planets.filter _).map Prod.snd

/-- **Solar positions ignore traffic, edges and the order of the hosts.** -/
theorem solarPositions_same (h : SameSky raw raw') :
    SamePositions (solarPositions go raw : KeyedMap String (Vec F)) (solarPositions go' raw') := by
  have hsys : List.Forall₂ _ (systemList go raw) (systemList go' raw') := systemList_same h
  have hbelt : List.Forall₂ (fun a b : Node => a.ip = b.ip) (raw.nodes.filter onBelt)
      (raw'.nodes.filter onBelt) := Reorder.forall₂_of_map_eq h.belt fun _ _ _ _ hid => hid
  have hlen : (systemList go raw).length = (systemList go' raw').length := hsys.length_eq
  show SamePositions ((systemList go raw).zipIdx.foldl (placeSystem (systemList go raw).length) _)
    ((systemList go' raw').zipIdx.foldl (placeSystem (systemList go' raw').length) _)
  rw [← hlen]
  refine Reorder.foldl_forall₂ (fun {a b s s'} hab hs => ?_) (Reorder.forall₂_zipIdx hsys 0) ?_
  · obtain ⟨⟨key, members⟩, i⟩ := a
    obtain ⟨⟨key', members'⟩, i'⟩ := b
    obtain ⟨⟨hkey, hmembers⟩, hi⟩ := hab
    obtain rfl : key = key' := hkey
    obtain rfl : i = i' := hi
    exact placeSystem_same _ i key hmembers hs
  · refine Reorder.foldl_forall₂ (fun {a b s s'} hab hs => ?_) (Reorder.forall₂_zipIdx hbelt 0)
      fun _ => rfl
    obtain ⟨n, i⟩ := a
    obtain ⟨n', i'⟩ := b
    obtain ⟨hnode, hi⟩ := hab
    obtain rfl : i = i' := hi
    have hid : n.ip = n'.ip := hnode
    intro id
    simp only [KeyedMap.lookup_insert_eq, hid, hs id]

end Positions

/-! ## Pins -/

section Pins

variable {F : Type} [FloatMath F]

omit [FloatMath F] in
/-- Pins overwrite positions that are there, and add none. -/
theorem lookup_honourPins (pos pins : KeyedMap String (Vec F)) (id : String) :
    (honourPins pos pins).lookup id = (pos.lookup id).map fun v => (pins.lookup id).getD v := by
  have hfold : ∀ (l : List (Sigma fun _ : String => Vec F)) (pos : KeyedMap String (Vec F)),
      l.NodupKeys → (l.foldl (fun (pos : KeyedMap String (Vec F)) p =>
        if (pos.lookup p.1).isSome then pos.insert p.1 p.2 else pos) pos).lookup id
        = (pos.lookup id).map fun v => (l.dlookup id).getD v := by
    intro l
    induction l with
    | nil => exact fun pos _ => Option.map_id'.symm
    | cons p l ih =>
      intro pos hnd
      obtain ⟨hnew, hnd⟩ := List.nodupKeys_cons.mp hnd
      rw [List.foldl_cons, ih _ hnd]
      by_cases hid : id = p.1
      · -- no later pin is for this node
        have hnone : l.dlookup id = none := List.dlookup_eq_none.mpr (hid ▸ hnew)
        have hsome : (p :: l).dlookup id = some p.2 := by rw [hid, List.dlookup_cons_eq]
        rw [hnone, hsome, hid]
        cases hl : pos.lookup p.1 with
        | none =>
          rw [Option.isSome_none, if_neg Bool.false_ne_true, hl]
          rfl
        | some v =>
          rw [Option.isSome_some, if_pos rfl, AList.lookup_insert]
          rfl
      · rw [List.dlookup_cons_ne l p (fun he => hid he)]
        split
        · rw [AList.lookup_insert_ne hid]
        · rfl
  exact hfold pins.entries pos pins.nodupKeys

end Pins

/-! ## What an engine holds -/

section Runs

variable {F : Type} [FloatMath F] [RuneCase]

/-- One call of the layout. -/
structure SolarStep (F : Type) where
  go : Runtime
  raw : RawSnapshot
  pins : KeyedMap String (Vec F) := ∅

/-- The engine after some calls. -/
def solarRun (rng : Nat → F) (l : List (SolarStep F)) : LayoutEngine F :=
  Run.exec (fun le s => layoutSolar s.go le s.raw s.pins) (newLayoutEngine rng) l

/-- The snapshot an engine last computed from, and the pins it was given since. -/
structure Held (F : Type) where
  raw : RawSnapshot
  pins : KeyedMap String (Vec F)

/-- A call with the signature held adds its pins, the later over the earlier; another starts anew. -/
def Held.add (h : Option (Held F)) (s : SolarStep F) : Held F :=
  match h with
  | some h =>
      if nodeSetSig h.raw.nodes = nodeSetSig s.raw.nodes then { h with pins := s.pins ∪ h.pins }
      else ⟨s.raw, s.pins⟩
  | none => ⟨s.raw, s.pins⟩

omit [FloatMath F] [RuneCase] in
theorem Held.add_same {h : Held F} {s : SolarStep F}
    (hsig : nodeSetSig h.raw.nodes = nodeSetSig s.raw.nodes) :
    Held.add (some h) s = ⟨h.raw, s.pins ∪ h.pins⟩ := if_pos hsig

omit [FloatMath F] [RuneCase] in
theorem Held.add_new {h : Held F} {s : SolarStep F}
    (hsig : nodeSetSig h.raw.nodes ≠ nodeSetSig s.raw.nodes) :
    Held.add (some h) s = ⟨s.raw, s.pins⟩ := by
  unfold Held.add
  simp only [if_neg hsig]

def held (l : List (SolarStep F)) : Option (Held F) := l.foldl (fun h s => some (Held.add h s)) none

/-- The positions on show: those computed, under the pins. -/
def Held.position (h : Held F) (id : String) : Option (Vec F) :=
  ((solarPositions Runtime.stable h.raw).lookup id).map fun v => (h.pins.lookup id).getD v

/-- What an engine stores is what it holds. -/
def Holds (le : LayoutEngine F) : Option (Held F) → Prop
  | none => le.positions.lookup "solar" = none
  | some h => le.sig.lookup "solar" = some (nodeSetSig h.raw.nodes)
      ∧ ∃ pos, le.positions.lookup "solar" = some pos ∧ ∀ id, pos.lookup id = h.position id

/-! ## One call -/

theorem Holds.layoutSolar {le : LayoutEngine F} {h : Option (Held F)} (hle : Holds le h)
    (s : SolarStep F) : Holds (layoutSolar s.go le s.raw s.pins) (some (Held.add h s)) := by
  have hfresh : Held.add h s = ⟨s.raw, s.pins⟩ → le.upToDate "solar" s.raw = false →
      Holds (LayoutEngine.layoutSolar s.go le s.raw s.pins) (some (Held.add h s)) := by
    intro hadd hold
    unfold LayoutEngine.layoutSolar
    simp only [hold, Bool.false_eq_true, if_false, hadd]
    refine ⟨AList.lookup_insert _, _, AList.lookup_insert _, fun id => ?_⟩
    rw [lookup_honourPins, solarPositions_same (sameSky_refl s.raw) id]
    rfl
  cases h with
  | none =>
    refine hfresh rfl ?_
    have hnone : le.positions.lookup "solar" = none := hle
    unfold upToDate
    rw [hnone, Option.isSome_none, Bool.and_false]
  | some h =>
    obtain ⟨hsig, pos, hpos, hshown⟩ := hle
    have hup : le.upToDate "solar" s.raw = decide (nodeSetSig h.raw.nodes = nodeSetSig s.raw.nodes) := by
      unfold upToDate
      rw [hsig, hpos, Option.isSome_some, Bool.and_true, Option.getD_some]
      exact beq_eq_decide _ _
    by_cases hsame : nodeSetSig h.raw.nodes = nodeSetSig s.raw.nodes
    · rw [Held.add_same hsame]
      unfold LayoutEngine.layoutSolar
      simp only [hup, decide_eq_true hsame, if_true, hpos, Option.getD_some]
      refine ⟨hsig, _, AList.lookup_insert _, fun id => ?_⟩
      rw [lookup_honourPins, hshown id]
      unfold Held.position
      rw [Option.map_map]
      refine Option.map_congr fun v _ => ?_
      by_cases hin : id ∈ s.pins
      · obtain ⟨p, hp⟩ := Option.isSome_iff_exists.mp (AList.lookup_isSome.mpr hin)
        rw [AList.lookup_union_left hin, hp]
        rfl
      · rw [AList.lookup_union_right hin, AList.lookup_eq_none.mpr hin]
        rfl
    · exact hfresh (Held.add_new hsame) (hup.trans (decide_eq_false hsame))

theorem holds_solarRun (rng : Nat → F) (l : List (SolarStep F)) : Holds (solarRun rng l) (held l) := by
  induction l using List.reverseRecOn with
  | nil => exact AList.lookup_empty _
  | append_singleton l s ih =>
    unfold solarRun held
    rw [Run.exec_concat, List.foldl_concat]
    exact ih.layoutSolar s

/-! ## Two runs -/

/-- A node without what the solar layout does not read. -/
def sky (n : Node) : Node where
  ip := n.ip
  hostname := n.hostname
  ips := n.ips
  packetCount := 0
  byteCount := 0
  lastSeen := 0
  isGroup := n.isGroup
  role := n.role

theorem planets_perm {raw raw' : RawSnapshot} (h : (raw.nodes.map sky).Perm (raw'.nodes.map sky)) :
    (planets raw).Perm (planets raw') := by
  have hsky : ∀ raw : RawSnapshot, planets raw
      = ((raw.nodes.map sky).filter fun n => !onBelt n).map fun n => (solarSystemKey n, n.ip) := by
    intro raw
    rw [List.filter_map, List.map_map]
    rfl
  rw [hsky, hsky]
  exact (h.filter _).map _

/-- One group node is in the same place in any order. -/
theorem beltIDs_of_one {raw raw' : RawSnapshot}
    (h : (raw.nodes.map sky).Perm (raw'.nodes.map sky)) (hone : (beltIDs raw).length ≤ 1) :
    beltIDs raw = beltIDs raw' := by
  have hsky : ∀ raw : RawSnapshot,
      beltIDs raw = ((raw.nodes.map sky).filter onBelt).map Node.ip := by
    intro raw
    rw [List.filter_map, List.map_map]
    rfl
  have hperm : (beltIDs raw).Perm (beltIDs raw') := by
    rw [hsky, hsky]
    exact (h.filter _).map _
  rcases Nat.le_one_iff_eq_zero_or_eq_one.mp hone with h0 | h1
  · rw [List.length_eq_zero_iff.mp h0] at hperm ⊢
    exact hperm.nil_eq
  · obtain ⟨id, hid⟩ := List.length_eq_one_iff.mp h1
    rw [hid] at hperm ⊢
    exact (List.perm_singleton.mp hperm.symm).symm

/--
What the engine holds after the last call is that call's own: the snapshot it computed
from looks the same, and no node keeps a pin that was taken away.
-/
structure Steady (l : List (SolarStep F)) (s : SolarStep F) : Prop where
  look : SameSky (Held.add (held l) s).raw s.raw
  pins : ∀ n ∈ s.raw.nodes, (Held.add (held l) s).pins.lookup n.ip = s.pins.lookup n.ip

omit [FloatMath F] in
/-- A call that finds another signature holds nothing older. -/
theorem steady_of_changed {l : List (SolarStep F)} {s : SolarStep F}
    (h : ∀ o ∈ held l, nodeSetSig o.raw.nodes ≠ nodeSetSig s.raw.nodes) : Steady l s := by
  have hadd : Held.add (held l) s = ⟨s.raw, s.pins⟩ := by
    unfold Held.add
    split
    · next o ho => rw [if_neg (h o ho)]
    · rfl
  exact ⟨by rw [hadd]; exact sameSky_refl _, fun n _ => by rw [hadd]⟩

omit [FloatMath F] [RuneCase] in
/-- Of the pins held, the last call leaves those of nodes it has a pin for, or that had none. -/
theorem pins_kept_iff (h : Held F) (s : SolarStep F) (id : String)
    (hsig : nodeSetSig h.raw.nodes = nodeSetSig s.raw.nodes) :
    (Held.add (some h) s).pins.lookup id = s.pins.lookup id ↔ (id ∈ h.pins → id ∈ s.pins) := by
  rw [Held.add_same hsig]
  by_cases hin : id ∈ s.pins
  · exact iff_of_true (AList.lookup_union_left hin) fun _ => hin
  · rw [AList.lookup_union_right hin, AList.lookup_eq_none.mpr hin, AList.lookup_eq_none]
    exact ⟨fun hold h => absurd h hold, fun h hold => hin (h hold)⟩

theorem position_steady (rng : Nat → F) {l : List (SolarStep F)} {s : SolarStep F}
    (h : Steady l s) {n : Node} (hn : n ∈ s.raw.nodes) :
    (solarRun rng (l ++ [s])).position "solar" n.ip
      = ((Held.position ⟨s.raw, s.pins⟩ n.ip).getD Vec.zero) := by
  have hholds := holds_solarRun rng (l ++ [s])
  have hheld : held (l ++ [s]) = some (Held.add (held l) s) := List.foldl_concat ..
  rw [hheld] at hholds
  obtain ⟨-, pos, hpos, hshown⟩ := hholds
  unfold position
  rw [hpos]
  simp only [hshown]
  unfold Held.position
  rw [h.pins n hn, solarPositions_same h.look n.ip]

/--
**The solar layout of a steady run ignores traffic and history**: what is on show after the
last call is the same in two runs, if their last snapshots hold the same nodes, list
their group nodes in one order and come with the same pins.
-/
theorem solar_ignores_history (rng rng' : Nat → F) {l l' : List (SolarStep F)} {s s' : SolarStep F}
    (hnodes : (s.raw.nodes.map sky).Perm (s'.raw.nodes.map sky))
    (hpins : ∀ id, s.pins.lookup id = s'.pins.lookup id) (hsteady : Steady l s)
    (hsteady' : Steady l' s') (hbelt : beltIDs s.raw = beltIDs s'.raw) :
    ∀ n ∈ s.raw.nodes, (solarRun rng (l ++ [s])).position "solar" n.ip
      = (solarRun rng' (l' ++ [s'])).position "solar" n.ip := by
  intro n hn
  obtain ⟨n', hn', hsky⟩ := List.mem_map.mp (hnodes.mem_iff.mp (List.mem_map_of_mem hn))
  have hid : (sky n').ip = (sky n).ip := congrArg Node.ip hsky
  have hid : n'.ip = n.ip := hid
  rw [position_steady rng hsteady hn, ← hid, position_steady rng' hsteady' hn']
  unfold Held.position
  rw [hpins, solarPositions_same ⟨hbelt, planets_perm hnodes⟩ n'.ip]

end Runs

/-! ## What the engine remembers -/

/-- Whole numbers, for positions that are whole: a stand-in that evaluates. -/
instance wholeMath : FloatMath Int where
  sub x y := x - y
  div x y := x / y
  lt x y := decide (x < y)
  le x y := decide (x ≤ y)
  min x y := if x < y then x else y
  max x y := if x < y then y else x
  hypot x y := x + y
  sqrt x := x.toNat.sqrt
  cos x := x
  sin x := x
  floor x := x
  ceil x := x
  log1p x := x
  roundTo x := x
  pi := 3
  maxFloat64 := 2 ^ 1023
  decimal m _ := m
  trunc x := x

/-- A multicast address. -/
def groupNode (ip : String) (packetCount : Nat) : Node where
  ip := ip
  hostname := ""
  ips := [ip]
  packetCount := packetCount
  byteCount := 0
  lastSeen := 0
  isGroup := true

def quiet (ip : String) : Node where
  ip := ip
  hostname := ""
  ips := [ip]
  packetCount := 0
  byteCount := 0
  lastSeen := 0
  isGroup := false

/-- One call over some nodes. -/
def callOver (nodes : List Node) (pins : KeyedMap String (Vec Int)) : SolarStep Int where
  go := Runtime.stable
  raw := ⟨nodes, []⟩
  pins := pins

def pinnedAt (x : Int) : KeyedMap String (Vec Int) :=
  (∅ : KeyedMap String (Vec Int)).insert "224.0.0.1" ⟨x, x⟩

/--
A pin outlives its removal, and the group nodes move when the order of their traffic
changes.
-/
theorem solar_remembers :
    (solarRun (fun _ => 0) [callOver [groupNode "224.0.0.1" 1] (pinnedAt 5),
        callOver [groupNode "224.0.0.1" 1] ∅]).position "solar" "224.0.0.1"
      ≠ (solarRun (fun _ => 0) [callOver [groupNode "224.0.0.1" 1] (pinnedAt 7),
        callOver [groupNode "224.0.0.1" 1] ∅]).position "solar" "224.0.0.1" ∧
    ([groupNode "224.0.0.1" 9, groupNode "224.0.0.2" 1].map sky).Perm
      ([groupNode "224.0.0.2" 9, groupNode "224.0.0.1" 1].map sky) ∧
    (solarRun (fun _ => 0)
        [callOver [groupNode "224.0.0.1" 9, groupNode "224.0.0.2" 1] ∅]).position "solar" "224.0.0.1"
      ≠ (solarRun (fun _ => 0)
        [callOver [groupNode "224.0.0.2" 9, groupNode "224.0.0.1" 1] ∅]).position "solar" "224.0.0.1" := by
  have hx : ∀ {p q : Vec Int}, p.x ≠ q.x → p ≠ q := fun h he => h (congrArg Vec.x he)
  refine ⟨hx ?_, List.Perm.swap _ _ _, hx ?_⟩
  · decide +kernel
  · decide +kernel

def otherNodes : SolarStep Int := callOver [quiet "10.0.0.9"] (pinnedAt 3)

def sameNodes : SolarStep Int :=
  callOver [groupNode "224.0.0.1" 3, quiet "10.0.0.1", quiet "10.0.0.2"] (pinnedAt 5)

def moreNodes : SolarStep Int :=
  callOver [quiet "10.0.0.1", groupNode "224.0.0.1" 1, groupNode "224.0.0.2" 8] (pinnedAt 4)

/-- The last call of a run: the group node is busy and first, and its pin is moved. -/
def busyGroup : SolarStep Int :=
  callOver [groupNode "224.0.0.1" 9, quiet "10.0.0.2", quiet "10.0.0.1"] (pinnedAt 7)

/-- The last call of another run: the group node is quiet and last. -/
def quietGroup : SolarStep Int :=
  callOver [quiet "10.0.0.2", quiet "10.0.0.1", groupNode "224.0.0.1" 0] (pinnedAt 7)

theorem steady_busyGroup : Steady [otherNodes, sameNodes] busyGroup := by
  have hnew : nodeSetSig otherNodes.raw.nodes ≠ nodeSetSig sameNodes.raw.nodes := by decide +kernel
  have hsig : nodeSetSig sameNodes.raw.nodes = nodeSetSig busyGroup.raw.nodes := by decide +kernel
  have hheld : held [otherNodes, sameNodes] = some ⟨sameNodes.raw, sameNodes.pins⟩ :=
    congrArg some (@Held.add_new Int ⟨otherNodes.raw, otherNodes.pins⟩ sameNodes hnew)
  constructor
  · rw [hheld, Held.add_same hsig]
    exact ⟨by decide +kernel, by decide +kernel⟩
  · intro n _
    rw [hheld]
    exact (pins_kept_iff _ _ n.ip hsig).mpr fun h => h

theorem steady_quietGroup : Steady [moreNodes] quietGroup :=
  steady_of_changed fun o ho => by
    obtain rfl := Option.some.inj ho
    decide +kernel

/--
Two histories with other node sets and other pins, and last calls with one pin: the
traffic differs and so does the order.
-/
theorem solar_ignores_history_pinned :
    (solarRun (fun _ => 0) ([otherNodes, sameNodes] ++ [busyGroup])).position "solar" "224.0.0.1"
        = (solarRun (fun _ => 1) ([moreNodes] ++ [quietGroup])).position "solar" "224.0.0.1" ∧
      (solarRun (fun _ => 0) ([otherNodes, sameNodes] ++ [busyGroup])).position "solar" "10.0.0.2"
        = (solarRun (fun _ => 1) ([moreNodes] ++ [quietGroup])).position "solar" "10.0.0.2" := by
  have hnodes : (busyGroup.raw.nodes.map sky).Perm (quietGroup.raw.nodes.map sky) :=
    (List.perm_append_comm :
      ([groupNode "224.0.0.1" 9] ++ [quiet "10.0.0.2", quiet "10.0.0.1"]).Perm _).map sky
  have h := solar_ignores_history (fun _ => 0) (fun _ => 1) hnodes (fun _ => rfl)
    steady_busyGroup steady_quietGroup (by decide +kernel)
  exact ⟨h (groupNode "224.0.0.1" 9) (.head _), h (quiet "10.0.0.2") (.tail _ (.head _))⟩

end LayoutEngine

end Etherchimp
