import Etherchimp.Graph.PacketStore
import Mathlib.Data.Nat.ModEq

/-!
# The packet ring holds the last packets

Read from its head, the ring is a list: adding a packet appends it, and drops the
front once the ring is full. So after any packets it holds the last of them, with
the numbers they were given when they came.
-/

namespace Etherchimp

namespace PacketStore

/-! ## Slots -/

/-- Different places within the ring are different slots. -/
theorem slot_inj {ps : PacketStore} {i j : Nat} (hi : i < ps.maxPackets) (hj : j < ps.maxPackets)
    (h : ps.slot i = ps.slot j) : i = j := by
  have hmod : (ps.head + i) % ps.maxPackets = (ps.head + j) % ps.maxPackets := congrArg Fin.val h
  exact Nat.ModEq.eq_of_lt_of_lt (Nat.ModEq.add_left_cancel' _ hmod) hi hj

theorem slot_zero (ps : PacketStore) : ps.slot 0 = ps.head :=
  Fin.ext (Nat.mod_eq_of_lt ps.head.isLt)

/-- A full turn comes back to the head. -/
theorem slot_max (ps : PacketStore) : ps.slot ps.maxPackets = ps.head := by
  refine Fin.ext ?_
  show (ps.head + ps.maxPackets) % ps.maxPackets = ps.head
  rw [Nat.add_mod_right, Nat.mod_eq_of_lt ps.head.isLt]

/-- A slot read after writing a packet into another. -/
theorem get_set {n : Nat} (v : Vector PacketData n) (i j : Fin n) (x : PacketData) :
    (v.set i x).get j = if j = i then x else v.get j := by
  by_cases h : j = i
  · subst h
    rw [if_pos rfl]
    exact Vector.getElem_set_self _
  · rw [if_neg h]
    exact Vector.getElem_set_ne _ _ fun heq => h (Fin.ext heq.symm)

/-! ## Adding a packet -/

section Add

variable (ps : PacketStore) (now : Int) (pkt : PacketInfo)

theorem addPacket_of_room (h : ps.size < ps.maxPackets) :
    (ps.addPacket now pkt).getPackets = ps.getPackets ++ [packetData ps.nextID now pkt] := by
  unfold addPacket
  rw [dif_pos h]
  unfold getPackets
  dsimp only
  rw [List.range_succ, List.map_append, List.map_singleton]
  refine congrArg₂ _ (List.map_congr_left fun i hi => ?_) (congrArg (fun x => [x]) ?_)
  · -- the new packet goes behind the ones in use
    have hi := List.mem_range.mp hi
    refine (get_set ps.packets _ _ _).trans (if_neg fun heq => ?_)
    have := slot_inj (by omega) h heq
    omega
  · exact (get_set ps.packets _ _ _).trans (if_pos rfl)

/-- Reading one place further on drops the first and adds one at the end. -/
private theorem map_range_shift {α : Type} {f g : Nat → α} {m n : Nat} (hm : m = n + 1)
    (h : ∀ i < n, f i = g (i + 1)) :
    (List.range m).map f = ((List.range m).map g).tail ++ [f n] := by
  subst hm
  rw [List.range_succ, List.map_append, List.map_singleton, ← List.range_succ,
    List.range_succ_eq_map, List.map_cons, List.tail_cons, List.map_map]
  exact congrArg (· ++ [f n]) (List.map_congr_left fun i hi => h i (List.mem_range.mp hi))

theorem addPacket_of_full (h : ¬ ps.size < ps.maxPackets) :
    (ps.addPacket now pkt).getPackets
      = ps.getPackets.tail ++ [packetData ps.nextID now pkt] := by
  have hsize : ps.size = ps.maxPackets := Nat.le_antisymm ps.size_le (Nat.not_lt.mp h)
  obtain ⟨n, hn⟩ : ∃ n, ps.maxPackets = n + 1 := Nat.exists_eq_add_one.mpr ps.head.pos
  -- the head moves on by one, so place `i` is what place `i + 1` was
  have hslot : ∀ i, (⟨(ps.slot 1 + i) % ps.maxPackets, Nat.mod_lt _ ps.head.pos⟩ :
      Fin ps.maxPackets) = ps.slot (i + 1) := by
    intro i
    refine Fin.ext ?_
    show ((ps.head + 1) % ps.maxPackets + i) % ps.maxPackets = (ps.head + (i + 1)) % ps.maxPackets
    rw [Nat.mod_add_mod, Nat.add_assoc, Nat.add_comm 1 i]
  unfold addPacket
  rw [dif_neg h]
  refine (map_range_shift (g := ps.nth) (hsize.trans hn) fun i hi => ?_).trans
    (congrArg (fun x => ps.getPackets.tail ++ [x]) ?_)
  · show (ps.packets.set ps.head _).get ⟨(ps.slot 1 + i) % ps.maxPackets, _⟩ = ps.nth (i + 1)
    rw [hslot, get_set, if_neg]
    · rfl
    · intro heq
      have := slot_inj (by omega) ps.head.pos (heq.trans ps.slot_zero.symm)
      omega
  · show (ps.packets.set ps.head _).get ⟨(ps.slot 1 + n) % ps.maxPackets, _⟩ = _
    rw [hslot, get_set, ← hn, slot_max, if_pos rfl]

@[simp] theorem addPacket_nextID : (ps.addPacket now pkt).nextID = ps.nextID + 1 := by
  unfold addPacket
  dsimp only
  split <;> rfl

@[simp] theorem addPacket_maxPackets : (ps.addPacket now pkt).maxPackets = ps.maxPackets := by
  unfold addPacket
  dsimp only
  split <;> rfl

end Add

@[simp] theorem length_getPackets (ps : PacketStore) : ps.getPackets.length = ps.size := by
  unfold getPackets
  rw [List.length_map, List.length_range]

/-- The ring holds the last of the packets added, numbered from 1. -/
structure HoldsLast (ps : PacketStore) (added : List PacketData) : Prop where
  nextID : ps.nextID = added.length + 1
  ids : added.map (·.id) = List.range' 1 added.length
  contents : ps.getPackets = added.drop (added.length - ps.maxPackets)

theorem HoldsLast.addPacket {ps : PacketStore} {added : List PacketData} (h : ps.HoldsLast added)
    (now : Int) (pkt : PacketInfo) :
    (ps.addPacket now pkt).HoldsLast (added ++ [packetData ps.nextID now pkt]) := by
  have hlen := congrArg List.length h.contents
  rw [length_getPackets, List.length_drop] at hlen
  refine ⟨?_, ?_, ?_⟩
  · rw [addPacket_nextID, h.nextID, List.length_append, List.length_singleton]
  · rw [List.map_append, h.ids, List.length_append, List.length_singleton, List.range'_concat,
      List.map_singleton]
    show _ ++ [ps.nextID] = _
    rw [h.nextID, Nat.one_mul, Nat.add_comm]
  · rw [addPacket_maxPackets, List.length_append, List.length_singleton]
    by_cases hroom : ps.size < ps.maxPackets
    · have hzero : added.length - ps.maxPackets = 0 := by omega
      have hzero' : added.length + 1 - ps.maxPackets = 0 := by omega
      rw [addPacket_of_room ps now pkt hroom, h.contents, hzero, hzero']
      rfl
    · have hle := ps.size_le
      have hnext : added.length + 1 - ps.maxPackets = added.length - ps.maxPackets + 1 := by omega
      rw [addPacket_of_full ps now pkt hroom, h.contents, hnext, List.tail_drop,
        List.drop_append_of_le_length (by have := ps.head.pos; omega)]

theorem holdsLast_new (maxPackets : Nat) (hpos : 0 < maxPackets) :
    (newPacketStore maxPackets hpos).HoldsLast [] :=
  ⟨rfl, rfl, List.drop_nil.symm⟩

/-- The numbers increase through the ring. -/
theorem HoldsLast.sorted {ps : PacketStore} {added : List PacketData} (h : ps.HoldsLast added) :
    ps.getPackets.Pairwise fun a b => (a.id : Int) < b.id := by
  have hall : added.Pairwise fun a b => a.id < b.id := by
    rw [← List.pairwise_map (f := fun p : PacketData => p.id) (R := (· < ·)), h.ids]
    exact List.pairwise_lt_range'
  rw [h.contents]
  exact (hall.sublist (List.drop_sublist ..)).imp fun {a b} hab => by omega

/-- Every number in the ring has been given out. -/
theorem HoldsLast.id_lt {ps : PacketStore} {added : List PacketData} (h : ps.HoldsLast added)
    {p : PacketData} (hp : p ∈ ps.getPackets) : p.id < ps.nextID := by
  rw [h.contents] at hp
  have hm : p.id ∈ added.map (·.id) := List.mem_map_of_mem (List.mem_of_mem_drop hp)
  rw [h.ids, List.mem_range'_1] at hm
  rw [h.nextID]
  omega

end PacketStore

end Etherchimp
