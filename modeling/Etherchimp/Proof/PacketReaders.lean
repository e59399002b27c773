import Etherchimp.Graph.PacketReaders
import Etherchimp.Lib.Loops
import Etherchimp.Lib.Run
import Etherchimp.Proof.PacketRing

/-!
# The readers see a bounded list

Read from its head the ring is the list of the last packets, and every reader is a query
on that list: a page is its end, and a search from the tail is a search of the list from
its end. No index leaves the ring on the way, and none leaves a payload.
-/

namespace Etherchimp

open Panic

open Wire (Bytes)

/-! ## Payloads -/

/-- Where the text, in lowercase, first stands in the payload in lowercase. -/
def firstSpelled (payload lower : Bytes) : Option Nat :=
  if lower = [] then none
  else (List.range payload.length).find? fun i => decide (lower <+: (payload.map lowerByte).drop i)

/-- Twenty bytes on either side of a match, cut to fit fifty characters. -/
def previewOf (payload : Bytes) (matchPos matchLen : Nat) : Bytes :=
  let shown := ((payload.take (matchPos + matchLen + 20)).drop (matchPos - 20)).map printable
  if 50 < shown.length then shown.take 47 ++ ascii "..." else shown

theorem spells_eq {payload lower : Bytes} {i : Nat} (h : i + lower.length ≤ payload.length) :
    spells payload lower i = .ok (decide (lower <+: (payload.map lowerByte).drop i)) := by
  have hread : spells payload lower i
      = .ok ((List.range lower.length).all fun j =>
          (payload[i + j]?.map lowerByte) == lower[j]?) := by
    unfold spells
    refine allM_ok fun j hj => ?_
    have hj := List.mem_range.mp hj
    have hij : i + j < payload.length := by omega
    rw [index_ok (List.getElem?_eq_getElem hij), ok_bind, index_ok (List.getElem?_eq_getElem hj),
      ok_bind, List.getElem?_eq_getElem hij, List.getElem?_eq_getElem hj]
    rfl
  rw [hread]
  congr 1
  rw [Bool.eq_iff_iff, List.all_eq_true, decide_eq_true_eq, List.prefix_iff_getElem?]
  constructor
  · intro hall j hj
    have := hall j (List.mem_range.mpr hj)
    rw [List.getElem?_drop, List.getElem?_map, eq_of_beq this, List.getElem?_eq_getElem hj]
  · intro hall j hj
    have hj := List.mem_range.mp hj
    have := hall j hj
    rw [List.getElem?_drop, List.getElem?_map] at this
    rw [this, List.getElem?_eq_getElem hj]
    exact beq_self_eq_true _

/-- A text stands only where there is room for it. -/
theorem room_of_spelled {payload lower : Bytes} {i : Nat} (hne : lower ≠ [])
    (h : lower <+: (payload.map lowerByte).drop i) : i + lower.length ≤ payload.length := by
  have hlen := h.length_le
  rw [List.length_drop, List.length_map] at hlen
  have := List.length_pos_iff.mpr hne
  omega

theorem payloadContainsAt_eq (payload lower : Bytes) :
    payloadContainsAt payload lower = .ok (firstSpelled payload lower) := by
  unfold payloadContainsAt firstSpelled
  by_cases hne : lower = []
  · rw [if_pos (Or.inl (by rw [hne]; rfl)), if_pos hne]
    rfl
  rw [if_neg hne]
  have hpos := List.length_pos_iff.mpr hne
  by_cases hshort : payload.length < lower.length
  · rw [if_pos (Or.inr hshort)]
    refine congrArg Except.ok (List.find?_eq_none.mpr fun i _ hi => ?_).symm
    have := room_of_spelled hne (of_decide_eq_true hi)
    omega
  rw [if_neg (by omega)]
  have hloop : ∀ i ∈ List.range (payload.length - lower.length + 1),
      (do return if ← spells payload lower i then some i else none : Except Panic (Option Nat))
        = .ok (Option.guard (fun i => decide (lower <+: (payload.map lowerByte).drop i)) i) := by
    intro i hi
    have hi := List.mem_range.mp hi
    rw [spells_eq (by omega), ok_bind]
    rfl
  -- the places the loop does not try have no room for the text
  have hsplit : payload.length
      = payload.length - lower.length + 1 + (lower.length - 1) := by omega
  have hrest : ((List.range (lower.length - 1)).map (payload.length - lower.length + 1 + ·)).find?
      (fun i => decide (lower <+: (payload.map lowerByte).drop i)) = none := by
    refine List.find?_eq_none.mpr fun i hi hspelled => ?_
    obtain ⟨k, _, rfl⟩ := List.mem_map.mp hi
    have := room_of_spelled hne (of_decide_eq_true hspelled)
    omega
  rw [findSomeM?_ok hloop, List.findSome?_guard]
  conv_rhs => rw [hsplit, List.range_add, List.find?_append, hrest, Option.or_none]

theorem payloadContains_eq (payload lower : Bytes) :
    payloadContains payload lower = .ok (firstSpelled payload lower).isSome := by
  unfold payloadContains
  rw [payloadContainsAt_eq]
  rfl

theorem payloadPreview_eq (payload : Bytes) (matchPos matchLen : Nat) :
    payloadPreview payload matchPos matchLen = .ok (previewOf payload matchPos matchLen) := by
  have hshown : (List.range (min (matchPos + matchLen + 20) payload.length - (matchPos - 20))).mapM
      (fun k => do return printable (← index payload (matchPos - 20 + k)))
      = .ok (((payload.take (matchPos + matchLen + 20)).drop (matchPos - 20)).map printable) := by
    have hread : ∀ k ∈ List.range
        (min (matchPos + matchLen + 20) payload.length - (matchPos - 20)),
        (do return printable (← index payload (matchPos - 20 + k)) : Except Panic UInt8)
          = .ok (printable (payload.getD (matchPos - 20 + k) 0)) := by
      intro k hk
      have hk := List.mem_range.mp hk
      have hlt : matchPos - 20 + k < payload.length := by omega
      rw [index_ok (List.getElem?_eq_getElem hlt), ok_bind, List.getD_eq_getElem _ _ hlt]
      rfl
    rw [mapM_ok hread]
    refine congrArg Except.ok (List.ext_getElem (by simp) fun k hk _ => ?_)
    rw [List.length_map, List.length_range] at hk
    rw [List.getElem_map, List.getElem_map, List.getElem_range, List.getElem_drop,
      List.getElem_take, List.getD_eq_getElem]
  unfold payloadPreview
  dsimp only
  rw [hshown, ok_bind]
  unfold previewOf
  dsimp only
  by_cases hlong : 50 < (((payload.take (matchPos + matchLen + 20)).drop
      (matchPos - 20)).map printable).length
  · rw [if_pos hlong, if_pos hlong, slice_ok (by omega)]
    rfl
  · rw [if_neg hlong, if_neg hlong]
    rfl

/-! ## Reads of the ring -/

namespace PacketStore

/-- Every place is a slot of the ring. -/
theorem readAt_eq (ps : PacketStore) (i : Nat) : ps.readAt i = .ok (ps.nth i) := by
  have hlt : (ps.head + i) % ps.maxPackets < ps.maxPackets := Nat.mod_lt _ ps.head.pos
  refine index_ok ?_
  rw [Vector.getElem?_toList, Vector.getElem?_eq_getElem hlt]
  rfl

theorem collect_eq (ps : PacketStore) {startOffset n : Nat} (h : startOffset + n = ps.size) :
    ps.collect startOffset n = .ok (ps.getPackets.drop startOffset) := by
  unfold collect
  rw [mapM_ok fun i _ => ps.readAt_eq (startOffset + i)]
  unfold getPackets
  rw [← List.map_drop, ← h, List.range_add, List.drop_left' List.length_range, List.map_map]
  rfl

/-- A search from the tail is a search of the list from its end. -/
theorem newest_eq (ps : PacketStore) {found : PacketData → Except Panic Bool}
    {p : PacketData → Bool} (h : ∀ a, found a = .ok (p a)) :
    ps.newest found = .ok (ps.getPackets.reverse.find? p) := by
  have hloop : ∀ i ∈ (List.range ps.size).reverse,
      (do
        let a ← ps.readAt i
        return if ← found a then some a else none : Except Panic (Option PacketData))
      = .ok ((Option.guard p ∘ ps.nth) i) := by
    intro i _
    rw [readAt_eq, ok_bind, h, ok_bind]
    rfl
  unfold newest
  rw [findSomeM?_ok hloop, ← List.findSome?_map, List.findSome?_guard, List.map_reverse]
  rfl

/-! ## The queries, on a list -/

/-- The end of the list, or all of it. -/
def recentOf (l : List PacketData) (n : Int) : List PacketData :=
  if n ≤ 0 then l else l.drop (l.length - n.toNat)

/-- What a payload search finds in one packet. -/
def matchOf (lower : Bytes) (p : PacketData) : Option PayloadMatch :=
  (firstSpelled p.payload lower).map fun pos => ⟨p, previewOf p.payload pos lower.length⟩

/-- The first `limit` matches from the end of the list. -/
def matchesOf (l : List PacketData) (lower : Bytes) (limit : Int) : List PayloadMatch :=
  (l.reverse.filterMap (matchOf lower)).take limit.toNat

theorem getRecentPackets_eq (ps : PacketStore) (n : Int) :
    ps.getRecentPackets n = .ok (recentOf ps.getPackets n) := by
  unfold getRecentPackets recentOf
  dsimp only
  rw [length_getPackets]
  by_cases hall : n ≤ 0 ∨ (ps.size : Int) < n
  · rw [if_pos hall, ps.collect_eq (by omega), Nat.sub_self, List.drop_zero]
    by_cases hle : n ≤ 0
    · rw [if_pos hle]
    · rw [if_neg hle, Nat.sub_eq_zero_of_le (by omega), List.drop_zero]
  · rw [if_neg hall, if_neg (by omega), ps.collect_eq (by omega)]

theorem mostRecentForIPs_eq (ps : PacketStore) (ipSet : String → Bool) :
    ps.mostRecentForIPs ipSet
      = .ok (ps.getPackets.reverse.find? fun p => ipSet p.srcIP || ipSet p.dstIP) :=
  ps.newest_eq fun _ => rfl

theorem mostRecentContaining_eq [RuneCase] (ps : PacketStore) (text : Bytes) :
    ps.mostRecentContaining text
      = .ok (ps.getPackets.reverse.find? fun p =>
          (firstSpelled p.payload (lowerText text)).isSome) := by
  unfold mostRecentContaining
  by_cases htext : text = []
  · have hnone : (fun p : PacketData => (firstSpelled p.payload (lowerText text)).isSome)
        = fun _ => false := by
      rw [htext]
      rfl
    rw [if_pos htext, hnone]
    exact congrArg Except.ok (List.find?_eq_none.mpr fun _ _ => Bool.false_ne_true).symm
  · rw [if_neg htext]
    exact ps.newest_eq fun p => payloadContains_eq p.payload (lowerText text)

/-- The scan goes on until it has enough. -/
theorem scanPayloads_eq (ps : PacketStore) (lower : Bytes) (limit : Nat) (places : List Nat)
    (found : List PayloadMatch) :
    ps.scanPayloads lower limit places found
      = .ok (found ++ (((places.map ps.nth).filterMap (matchOf lower)).take
          (limit - found.length))) := by
  induction places generalizing found with
  | nil =>
    rw [List.map_nil, List.filterMap_nil, List.take_nil, List.append_nil]
    rfl
  | cons i rest ih =>
    unfold scanPayloads
    by_cases hfull : (limit : Int) ≤ found.length
    · have hzero : limit - found.length = 0 := by omega
      rw [if_pos hfull, hzero, List.take_zero, List.append_nil]
      rfl
    · rw [if_neg hfull, readAt_eq, ok_bind, payloadContainsAt_eq, ok_bind, List.map_cons]
      cases hpos : firstSpelled (ps.nth i).payload lower with
      | none =>
        have hnone : matchOf lower (ps.nth i) = none := by
          unfold matchOf
          rw [hpos]
          rfl
        rw [List.filterMap_cons_none hnone]
        exact ih found
      | some pos =>
        have hsome : matchOf lower (ps.nth i)
            = some ⟨ps.nth i, previewOf (ps.nth i).payload pos lower.length⟩ := by
          unfold matchOf
          rw [hpos]
          rfl
        have hroom : limit - found.length = limit - (found.length + 1) + 1 := by omega
        rw [List.filterMap_cons_some hsome, hroom, List.take_succ_cons, List.append_cons]
        dsimp only
        rw [payloadPreview_eq, ok_bind, ih, List.length_append, List.length_singleton]

/-- An empty text stands nowhere. -/
theorem matchesOf_nil (l : List PacketData) (limit : Int) : matchesOf l [] limit = [] := by
  have hnone : ∀ p ∈ l.reverse, matchOf [] p = none := fun _ _ => rfl
  unfold matchesOf
  rw [List.filterMap_eq_nil_iff.mpr hnone, List.take_nil]

theorem searchPayload_eq [RuneCase] (ps : PacketStore) (text : Bytes) (limit : Int) :
    ps.searchPayload text limit = .ok (matchesOf ps.getPackets (lowerText text) limit) := by
  unfold searchPayload
  by_cases hnone : text = [] ∨ limit ≤ 0
  · rw [if_pos hnone]
    rcases hnone with rfl | hlimit
    · exact congrArg Except.ok (matchesOf_nil ..).symm
    · unfold matchesOf
      rw [Int.toNat_of_nonpos hlimit, List.take_zero]
      rfl
  · rw [if_neg hnone]
    have hlimit : limit = (limit.toNat : Int) := by omega
    conv_lhs => rw [hlimit]
    rw [scanPayloads_eq, List.nil_append, List.map_reverse]
    rfl

/-- Of a list in which one element at most is looked for, the end does not matter. -/
private theorem find?_reverse_of_unique {α : Type} {l : List α} {p : α → Bool}
    (h : ∀ a ∈ l, ∀ b ∈ l, p a = true → p b = true → a = b) : l.reverse.find? p = l.find? p := by
  cases hfind : l.find? p with
  | none =>
    refine List.find?_eq_none.mpr fun a ha => List.find?_eq_none.mp hfind a ?_
    exact List.mem_reverse.mp ha
  | some a =>
    have ha := List.mem_of_find?_eq_some hfind
    cases hback : l.reverse.find? p with
    | none =>
      exact (List.find?_eq_none.mp hback a (List.mem_reverse.mpr ha) (List.find?_some hfind)).elim
    | some b =>
      have hb := List.mem_reverse.mp (List.mem_of_find?_eq_some hback)
      rw [h b hb a ha (List.find?_some hback) (List.find?_some hfind)]

theorem HoldsLast.getByID_eq {ps : PacketStore} {added : List PacketData}
    (h : ps.HoldsLast added) (id : Int) :
    ps.getByID id = .ok (ps.getPackets.find? fun p => (p.id : Int) = id) := by
  have hread : ps.getByID id
      = .ok (ps.getPackets.reverse.find? fun p => (p.id : Int) = id) := ps.newest_eq fun _ => rfl
  rw [hread, find?_reverse_of_unique]
  -- the numbers increase, so one packet at most has this one
  have hnodup : (ps.getPackets.map fun p => (p.id : Int)).Nodup :=
    List.pairwise_map.mpr (h.sorted.imp fun hlt => Int.ne_of_lt hlt)
  intro a ha b hb hpa hpb
  exact List.inj_on_of_nodup_map hnodup ha hb
    ((of_decide_eq_true hpa).trans (of_decide_eq_true hpb).symm)

/-! ## The ring after any packets -/

/-- Packets with the times they are added at. -/
def addAll (ps : PacketStore) (adds : List (Int × PacketInfo)) : PacketStore :=
  Run.exec (fun ps a => ps.addPacket a.1 a.2) ps adds

/-- The packets as the store keeps them, numbered from 1. -/
def received (adds : List (Int × PacketInfo)) : List PacketData :=
  adds.mapIdx fun i a => packetData (i + 1) a.1 a.2

/-- The last `n` of the packets received. -/
def lastReceived (n : Nat) (adds : List (Int × PacketInfo)) : List PacketData :=
  (received adds).drop (adds.length - n)

theorem maxPackets_addAll (ps : PacketStore) (adds : List (Int × PacketInfo)) :
    (ps.addAll adds).maxPackets = ps.maxPackets :=
  Run.invariant (P := fun s => s.maxPackets = ps.maxPackets) rfl
    (fun s a h _ => (s.addPacket_maxPackets a.1 a.2).trans h) (Run.guarded_true ps adds)

theorem holdsLast_addAll (maxPackets : Nat) (hpos : 0 < maxPackets)
    (adds : List (Int × PacketInfo)) :
    ((newPacketStore maxPackets hpos).addAll adds).HoldsLast (received adds) := by
  induction adds using List.reverseRecOn with
  | nil => exact holdsLast_new maxPackets hpos
  | append_singleton adds a ih =>
    have hnext := ih.addPacket a.1 a.2
    have hlen : (received adds).length = adds.length := List.length_mapIdx
    rw [ih.nextID, hlen] at hnext
    unfold addAll received at hnext ⊢
    rw [Run.exec_concat, List.mapIdx_concat]
    exact hnext

/-- Every reader is the query on the list, and no index is out of range. -/
structure Answers [RuneCase] (ps : PacketStore) (l : List PacketData) : Prop where
  packets : ps.collect 0 ps.size = .ok l
  recent (n : Int) : ps.getRecentPackets n = .ok (recentOf l n)
  byID (id : Int) : ps.getByID id = .ok (l.find? fun p => (p.id : Int) = id)
  forIPs (ipSet : String → Bool) : ps.mostRecentForIPs ipSet
    = .ok (l.reverse.find? fun p => ipSet p.srcIP || ipSet p.dstIP)
  containing (text : Bytes) : ps.mostRecentContaining text
    = .ok (l.reverse.find? fun p => (firstSpelled p.payload (lowerText text)).isSome)
  payloads (text : Bytes) (limit : Int) : ps.searchPayload text limit
    = .ok (matchesOf l (lowerText text) limit)

theorem HoldsLast.answers [RuneCase] {ps : PacketStore} {added : List PacketData}
    (h : ps.HoldsLast added) : ps.Answers ps.getPackets where
  packets := (ps.collect_eq (Nat.zero_add _)).trans (congrArg Except.ok List.drop_zero)
  recent := ps.getRecentPackets_eq
  byID := h.getByID_eq
  forIPs := ps.mostRecentForIPs_eq
  containing := ps.mostRecentContaining_eq
  payloads := ps.searchPayload_eq

/--
**The packet ring refines a bounded list.** After any packets the ring read from its head
is the list of the last of them, as many as fit, with consecutive numbers up to the last
one given out, and every reader answers from that list.
-/
theorem ring_refines_list [RuneCase] (maxPackets : Nat) (hpos : 0 < maxPackets)
    (adds : List (Int × PacketInfo)) :
    let ps := (newPacketStore maxPackets hpos).addAll adds
    let l := lastReceived maxPackets adds
    ps.getPackets = l
    ∧ l.length = min adds.length maxPackets
    ∧ l.map (·.id) = List.range' (adds.length - l.length + 1) l.length
    ∧ ps.Answers l := by
  intro ps l
  have hholds : ps.HoldsLast (received adds) := holdsLast_addAll maxPackets hpos adds
  have hlen : (received adds).length = adds.length := List.length_mapIdx
  have hmax : ps.maxPackets = maxPackets := maxPackets_addAll _ adds
  have hcontents : ps.getPackets = l := by
    rw [hholds.contents, hlen, hmax]
    rfl
  have hlength : l.length = min adds.length maxPackets := by
    show ((received adds).drop (adds.length - maxPackets)).length = _
    rw [List.length_drop, hlen]
    omega
  refine ⟨hcontents, hlength, ?_, hcontents ▸ hholds.answers⟩
  rw [hlength]
  show ((received adds).drop (adds.length - maxPackets)).map (·.id) = _
  rw [List.map_drop, hholds.ids, hlen, List.drop_range']
  congr 1 <;> omega

/-- A packet with this payload, and the time it is added at. -/
def datagram (payload : Bytes) : Int × PacketInfo :=
  (0, { srcIP := "10.0.0.1", dstIP := "10.0.0.2", length := payload.length, payload := payload })

/-- Three packets in a ring of two: the first is gone, and no search finds it. -/
theorem ring_refines_list_three :
    let ps := (newPacketStore 2 (by decide)).addAll
      [datagram (ascii "GET /a"), datagram (ascii "get /b"), datagram (ascii "PUT /c")]
    ps.getPackets.map (·.id) = [2, 3]
    ∧ ps.searchPayload (ascii "Get") 5
        = .ok [⟨packetData 2 0 (datagram (ascii "get /b")).2, ascii "get /b"⟩] := by
  intro ps
  obtain ⟨hpackets, _, _, hanswers⟩ := ring_refines_list 2 (by decide)
    [datagram (ascii "GET /a"), datagram (ascii "get /b"), datagram (ascii "PUT /c")]
  constructor
  · rw [hpackets]
    decide +kernel
  · rw [hanswers.payloads]
    exact congrArg Except.ok (by decide +kernel)

end PacketStore

end Etherchimp
