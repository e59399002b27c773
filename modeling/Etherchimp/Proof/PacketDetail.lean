import Etherchimp.Proof.HexDump
import Etherchimp.Proof.PacketReaders
import Etherchimp.Server.PacketDetail

/-!
# The inspector shows the packet asked for

A number names one packet for good, whatever the ring has let go of in the meantime. The
inspector answers with that packet's bytes or says that it has none.
-/

namespace Etherchimp

open PacketStore

open Wire (Bytes)

/-- The views of a packet, read back. -/
structure ViewsOf (pkt : PacketInfo) (views : PacketViews) : Prop where
  hexDump : readHexDump views.hexDump = pkt.payload.take 512
  asciiView : pkt.payload = [] ∨
    views.asciiView.toList.take 2048 = (pkt.payload.take 2048).map textByte

/-- The text view begins with the bytes within the limit. -/
theorem take_asciiText {payload : List UInt8} {n : Nat} (hn : 0 < n) (hne : payload ≠ []) :
    (asciiText payload n).toList.take n = (payload.take n).map textByte := by
  unfold asciiText
  rw [if_neg hne]
  dsimp only
  rw [take_displayed payload hn]
  split
  next hcut =>
    have hlen : ((payload.take n).map textByte).length = n := by
      unfold displayed at hcut
      rw [List.length_map, List.length_take]
      split at hcut <;> omega
    rw [String.toList_append, String.toList_ofList, List.take_left' hlen]
  next =>
    rw [String.toList_ofList]
    exact List.take_of_length_le (by rw [List.length_map]; exact List.length_take_le ..)

/-- A packet behind the first `k` received has a later number. -/
theorem mem_drop_received {adds : List (Int × PacketInfo)} {k : Nat} {p : PacketData} :
    p ∈ (received adds).drop k
      ↔ ∃ j a, k ≤ j ∧ adds[j]? = some a ∧ p = packetData (j + 1) a.1 a.2 := by
  unfold received
  rw [List.mem_iff_getElem?]
  constructor
  · rintro ⟨i, hi⟩
    rw [List.getElem?_drop, List.getElem?_mapIdx, Option.map_eq_some_iff] at hi
    obtain ⟨a, ha, rfl⟩ := hi
    exact ⟨k + i, a, Nat.le_add_right .., ha, rfl⟩
  · rintro ⟨j, a, hj, ha, rfl⟩
    refine ⟨j - k, ?_⟩
    rw [List.getElem?_drop, List.getElem?_mapIdx, Nat.add_sub_cancel' hj, ha]
    rfl

/--
After any packets, whatever the query says: without a positive number the inspector asks
for one, with a number that the ring no longer has or has not given out it says so, and
otherwise it shows the packet that came as the one of that number.
-/
theorem packetDetail_right (maxPackets : Nat) (hpos : 0 < maxPackets)
    (adds : List (Int × PacketInfo)) (v : Bytes) :
    let id := parseIntParam v 0
    match handlePacketDetail ((newPacketStore maxPackets hpos).addAll adds) v with
    | .error _ => False
    | .ok (.error e) =>
        (e = ⟨400, "missing or invalid id"⟩ ∧ id ≤ 0)
        ∨ (e = ⟨404, "packet no longer in buffer"⟩ ∧ 0 < id
          ∧ (id ≤ adds.length - maxPackets ∨ adds.length < id))
    | .ok (.ok views) =>
        ∃ now pkt, adds[views.id - 1]? = some (now, pkt) ∧ (views.id : Int) = id ∧ 0 < id
          ∧ (adds.length : Int) - maxPackets < id ∧ ViewsOf pkt views := by
  intro id
  have hholds := holdsLast_addAll maxPackets hpos adds
  have hlen : (received adds).length = adds.length := List.length_mapIdx
  have hread : ((newPacketStore maxPackets hpos).addAll adds).getByID id
      = .ok (((received adds).drop (adds.length - maxPackets)).find?
          fun p => (p.id : Int) = id) := by
    have hfound := hholds.getByID_eq id
    rw [hholds.contents, hlen, maxPackets_addAll] at hfound
    exact hfound
  unfold handlePacketDetail
  dsimp only
  by_cases hid : id ≤ 0
  · rw [if_pos hid]
    exact .inl ⟨rfl, hid⟩
  · rw [if_neg hid, hread]
    cases hfind : ((received adds).drop (adds.length - maxPackets)).find?
        fun p => (p.id : Int) = id with
    | none =>
      refine .inr ⟨rfl, not_le.mp hid, ?_⟩
      -- a number in between is that of a packet the search would have met
      by_contra hin
      have hin := not_or.mp hin
      have hlt : id.toNat - 1 < adds.length := by omega
      have hmem : packetData (id.toNat - 1 + 1) adds[id.toNat - 1].1 adds[id.toNat - 1].2
          ∈ (received adds).drop (adds.length - maxPackets) :=
        mem_drop_received.mpr ⟨id.toNat - 1, _, by omega, List.getElem?_eq_getElem hlt, rfl⟩
      have hmiss := List.find?_eq_none.mp hfind _ hmem
      have hid' : ((id.toNat - 1 + 1 : Nat) : Int) = id := by omega
      exact hmiss (decide_eq_true hid')
    | some p =>
      obtain ⟨j, ⟨now, pkt⟩, hj, ha, rfl⟩ :=
        mem_drop_received.mp (List.mem_of_find?_eq_some hfind)
      have hhit := List.find?_some hfind
      have hnum : ((j + 1 : Nat) : Int) = id := of_decide_eq_true hhit
      refine ⟨now, pkt, ha, hnum, not_le.mp hid, by omega, ?_, ?_⟩
      · exact (read_hexDumpText pkt.payload (512 : Nat)).trans (take_displayed _ (by decide))
      · by_cases hne : pkt.payload = []
        · exact .inl hne
        · exact .inr (take_asciiText (by decide) hne)

/-- Two packets in a ring of one, and the number of the second. -/
theorem packetDetail_right_second :
    let adds : List (Int × PacketInfo) :=
      [(0, { srcIP := "10.0.0.1", dstIP := "10.0.0.2", length := 60 }),
        (1, { srcIP := "10.0.0.2", dstIP := "10.0.0.1", length := 64, payload := [72, 105] })]
    match handlePacketDetail ((newPacketStore 1 (by decide)).addAll adds) [50] with
    | .ok (.ok views) => readHexDump views.hexDump = [72, 105]
    | _ => False := by
  intro adds
  have hright := packetDetail_right 1 (by decide) adds [50]
  have hshown : handlePacketDetail ((newPacketStore 1 (by decide)).addAll adds) [50]
      = .ok (.ok ⟨2, hexDumpText [72, 105] 512, asciiText [72, 105] 2048⟩) := rfl
  rw [hshown] at hright ⊢
  obtain ⟨now, pkt, hpkt, -, -, -, hviews⟩ := hright
  cases hpkt
  exact hviews.hexDump

end Etherchimp
