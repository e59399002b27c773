import Etherchimp.Proof.StreamTable
import Mathlib.Algebra.BigOperators.Group.List.Basic

/-!
# What a stream holds

A live stream was created by one of the calls, and has been live ever since. From
that call on it has seen every packet filed under its id, and everything it holds
is a function of those packets: the counters of all of them, the first 500 of
them, and the first bytes of each direction.
-/

namespace Etherchimp

/-- A packet and the clock reading it was filed at. -/
abbrev Filing := Int × PacketInfo

/-- The packet a call files under `id`. -/
def StreamOp.filing (id : String) : StreamOp → Option Filing
  | .addPacket now pkt =>
      if (StreamOp.addPacket now pkt).filesUnder = some id then some (now, pkt) else none
  | .clear => none

/-- The packets the calls file under `id`, in order. -/
def filedUnder (id : String) (ops : List StreamOp) : List Filing := ops.filterMap (·.filing id)

theorem filing_of_ne {op : StreamOp} {id : String} (h : op.filesUnder ≠ some id) :
    op.filing id = none := by
  cases op with
  | clear => rfl
  | addPacket now pkt => exact if_neg h

/-! ## One stream -/

namespace Stream

/-- The payloads of the packets that were sent in one direction, in order. -/
def payloadOf (s : Stream) (dir : StreamDirection) (filed : List Filing) : List UInt8 :=
  (filed.filter fun f => s.directionOf f.2 = dir).flatMap fun f => f.2.payload

/-- Everything the stream holds, by the packets filed since its creation. -/
structure Holds (s : Stream) (filed : List Filing) : Prop where
  packetCount : s.packetCount = filed.length
  byteCount : s.byteCount = (filed.map fun f => f.2.length).sum
  packets : s.packets = (filed.take 500).map fun f => s.record f.1 f.2
  requestData : s.requestData = (s.payloadOf .request filed).take maxStreamPayload
  responseData : s.responseData = (s.payloadOf .response filed).take maxStreamPayload

/-- The endpoints are those of the packet that created the stream. -/
structure OpenedBy (s : Stream) (creator : PacketInfo) : Prop where
  srcIP : s.srcIP = creator.srcIP
  srcPort : s.srcPort = creator.srcPort
  dstIP : s.dstIP = creator.dstIP
  dstPort : s.dstPort = creator.dstPort

end Stream

/-- Appending to what a cap left of `l` is capping the longer list. -/
theorem appendCapped_take (l src : List UInt8) :
    appendCapped (l.take maxStreamPayload) src = (l ++ src).take maxStreamPayload := by
  unfold appendCapped
  rw [List.length_take, List.take_append]
  by_cases hroom : l.length < maxStreamPayload
  · have hl : l.take maxStreamPayload = l := List.take_of_length_le hroom.le
    have hmin : min maxStreamPayload l.length = l.length := by omega
    rw [hl, hmin, if_pos (by omega)]
    congr 1
    -- a shorter `src` is taken whole by either bound
    rcases Nat.le_total (maxStreamPayload - l.length) src.length with h | h
    · rw [Nat.min_eq_left h]
    · rw [Nat.min_eq_right h, List.take_of_length_le h, List.take_length]
  · have hmin : min maxStreamPayload l.length = maxStreamPayload := by omega
    have hrest : maxStreamPayload - l.length = 0 := by omega
    rw [hmin, Nat.sub_self, if_neg (Nat.lt_irrefl 0), hrest, List.take_zero, List.append_nil]

namespace Stream

variable {s : Stream}

theorem directionOf_add (now : Int) (pkt q : PacketInfo) :
    (s.add now pkt).directionOf q = s.directionOf q := by
  obtain ⟨protocol, summary, h⟩ := add_eq s now pkt
  rw [h]
  rfl

theorem record_add (now t : Int) (pkt q : PacketInfo) :
    (s.add now pkt).record t q = s.record t q := by
  unfold record
  rw [directionOf_add]

theorem payloadOf_add (now : Int) (pkt : PacketInfo) (dir : StreamDirection)
    (filed : List Filing) : (s.add now pkt).payloadOf dir filed = s.payloadOf dir filed := by
  unfold payloadOf
  simp only [directionOf_add]

theorem payloadOf_concat (dir : StreamDirection) (filed : List Filing) (f : Filing) :
    s.payloadOf dir (filed ++ [f])
      = s.payloadOf dir filed ++ if s.directionOf f.2 = dir then f.2.payload else [] := by
  unfold payloadOf
  rw [List.filter_append, List.flatMap_append]
  by_cases h : s.directionOf f.2 = dir <;> simp [h]

theorem OpenedBy.add {creator : PacketInfo} (h : s.OpenedBy creator) (now : Int)
    (pkt : PacketInfo) : (s.add now pkt).OpenedBy creator := by
  obtain ⟨protocol, summary, heq⟩ := add_eq s now pkt
  rw [heq]
  exact ⟨h.srcIP, h.srcPort, h.dstIP, h.dstPort⟩

theorem openedBy_newStream (now : Int) (pkt : PacketInfo) (p : Nat) :
    (newStream now pkt p).OpenedBy pkt := ⟨rfl, rfl, rfl, rfl⟩

theorem holds_newStream (now : Int) (pkt : PacketInfo) (p : Nat) : (newStream now pkt p).Holds [] :=
  ⟨rfl, rfl, rfl, rfl, rfl⟩

/-- The packets kept are the first 500 however many follow. -/
private theorem packets_concat {α β : Type} (g : α → β) (l : List α) (x : α) :
    (if ((l.take 500).map g).length < 500 then (l.take 500).map g ++ [g x]
      else (l.take 500).map g) = ((l ++ [x]).take 500).map g := by
  rw [List.length_map, List.length_take]
  by_cases h : l.length < 500
  · rw [if_pos (by omega), List.take_of_length_le h.le,
      List.take_of_length_le (by rw [List.length_append, List.length_singleton]; omega),
      List.map_append, List.map_singleton]
  · rw [if_neg (by omega), List.take_append_of_le_length (by omega)]

/-- One more packet. -/
theorem Holds.add {filed : List Filing} (h : s.Holds filed) (now : Int) (pkt : PacketInfo) :
    (s.add now pkt).Holds (filed ++ [(now, pkt)]) := by
  obtain ⟨protocol, summary, heq⟩ := add_eq s now pkt
  constructor
  · rw [heq, List.length_append]
    show s.packetCount + 1 = _
    rw [h.packetCount, List.length_singleton]
  · rw [heq, List.map_append, List.sum_append]
    show s.byteCount + pkt.length = _
    rw [h.byteCount, List.map_singleton, List.sum_singleton]
  · simp only [record_add]
    rw [heq]
    show (if s.packets.length < 500 then s.packets ++ [s.record now pkt] else s.packets) = _
    rw [h.packets]
    exact packets_concat (fun f : Filing => s.record f.1 f.2) filed (now, pkt)
  · rw [payloadOf_add, payloadOf_concat, heq]
    show (if s.directionOf pkt = .request then appendCapped s.requestData pkt.payload
      else s.requestData) = _
    rw [h.requestData]
    by_cases hd : s.directionOf pkt = .request
    · rw [if_pos hd, if_pos hd, appendCapped_take]
    · rw [if_neg hd, if_neg hd, List.append_nil]
  · rw [payloadOf_add, payloadOf_concat, heq]
    show (if s.directionOf pkt = .request then s.responseData
      else appendCapped s.responseData pkt.payload) = _
    rw [h.responseData]
    cases hd : s.directionOf pkt with
    | request => rw [if_pos rfl, if_neg (by simp), List.append_nil]
    | response => rw [if_neg (by simp), if_pos rfl, appendCapped_take]

end Stream

/-! ## One call -/

namespace StreamManager

/-- A stream that is there after an eviction was there before. -/
theorem lookup_makeRoom_some {m : StreamManager} {id : String} {s : Stream}
    (h : m.makeRoom.streams.lookup id = some s) : m.streams.lookup id = some s := by
  unfold makeRoom evictOldestStream at h
  split at h
  · split at h
    · exact h
    · rename_i front _
      have h : (m.streams.erase front.2).lookup id = some s := h
      rw [KeyedMap.lookup_erase_eq] at h
      by_cases hid : id = front.2
      · rw [if_pos hid] at h
        cases h
      · rwa [if_neg hid] at h
  · exact h

/-- Where a stream of the next state comes from. -/
theorem lookup_step {m : StreamManager} {op : StreamOp} {id : String} {s : Stream}
    (h : (m.step op).streams.lookup id = some s) :
    (op.filesUnder ≠ some id ∧ m.streams.lookup id = some s) ∨
    ∃ now pkt, op = .addPacket now pkt ∧ op.filesUnder = some id ∧
      ((∃ s₀, m.streams.lookup id = some s₀ ∧ s = s₀.add now pkt) ∨
        (m.streams.lookup id = none ∧ ∃ p, s = (newStream now pkt p).add now pkt)) := by
  cases op with
  | clear =>
    rw [show (m.step .clear).streams = ∅ from rfl, AList.lookup_empty] at h
    cases h
  | addPacket now pkt =>
    have h : (m.addPacket now pkt).streams.lookup id = some s := h
    cases hp : hasNoPorts pkt with
    | true =>
      rw [addPacket_of_noPorts hp] at h
      exact Or.inl ⟨by rw [filesUnder_of_noPorts hp]; simp, h⟩
    | false =>
      have hf := filesUnder_of_ports hp now
      rcases hs : m.streams.lookup (streamIDOf pkt) with _ | s₀
      · rw [addPacket_of_none hp hs, KeyedMap.lookup_insert_eq] at h
        by_cases hid : id = streamIDOf pkt
        · rw [if_pos hid] at h
          exact Or.inr ⟨now, pkt, rfl, by rw [hf, hid],
            Or.inr ⟨hid ▸ hs, _, (Option.some.inj h).symm⟩⟩
        · rw [if_neg hid] at h
          exact Or.inl ⟨by rw [hf]; simpa using Ne.symm hid, lookup_makeRoom_some h⟩
      · rw [addPacket_of_some hp hs, KeyedMap.lookup_insert_eq] at h
        by_cases hid : id = streamIDOf pkt
        · rw [if_pos hid] at h
          exact Or.inr ⟨now, pkt, rfl, by rw [hf, hid],
            Or.inl ⟨s₀, hid ▸ hs, (Option.some.inj h).symm⟩⟩
        · rw [if_neg hid] at h
          exact Or.inl ⟨by rw [hf]; simpa using Ne.symm hid, h⟩

end StreamManager

/-! ## The run -/

/--
`id` was last created by the call between `before` and `after`: it was not live
then, and it has been live after every call since.
-/
structure CreatedAt (maxStreams : Int) (ops : List StreamOp) (id : String)
    (before : List StreamOp) (now : Int) (creator : PacketInfo) (after : List StreamOp) :
    Prop where
  calls : ops = before ++ .addPacket now creator :: after
  files : (StreamOp.addPacket now creator).filesUnder = some id
  absent : id ∉ (StreamManager.run maxStreams before).streams
  alive : ∀ l, l <+: after →
    id ∈ (StreamManager.run maxStreams (before ++ .addPacket now creator :: l)).streams

/-- One more call that leaves the stream alive. -/
theorem CreatedAt.concat {maxStreams : Int} {ops : List StreamOp} {id : String}
    {before : List StreamOp} {now : Int} {creator : PacketInfo} {after : List StreamOp}
    (h : CreatedAt maxStreams ops id before now creator after) {op : StreamOp}
    (hlive : id ∈ (StreamManager.run maxStreams (ops ++ [op])).streams) :
    CreatedAt maxStreams (ops ++ [op]) id before now creator (after ++ [op]) where
  calls := by rw [h.calls, List.append_assoc, List.cons_append]
  files := h.files
  absent := h.absent
  alive := by
    intro l hl
    rcases List.prefix_concat_iff.mp hl with rfl | hl
    · rw [h.calls, List.append_assoc, List.cons_append] at hlive
      exact hlive
    · exact h.alive l hl

theorem filedUnder_concat_of_ne {id : String} {op : StreamOp} (h : op.filesUnder ≠ some id)
    (ops : List StreamOp) : filedUnder id (ops ++ [op]) = filedUnder id ops := by
  unfold filedUnder
  rw [List.filterMap_append, List.filterMap_cons, filing_of_ne h]
  exact List.append_nil _

theorem filedUnder_concat_of_eq {id : String} {now : Int} {pkt : PacketInfo}
    (h : (StreamOp.addPacket now pkt).filesUnder = some id) (ops : List StreamOp) :
    filedUnder id (ops ++ [.addPacket now pkt]) = filedUnder id ops ++ [(now, pkt)] := by
  unfold filedUnder
  rw [List.filterMap_append]
  congr 1
  exact List.filterMap_cons_some (if_pos h)

/-- What is known of a live stream. -/
def Accounted (maxStreams : Int) (ops : List StreamOp) (id : String) (s : Stream) : Prop :=
  ∃ before now creator after, CreatedAt maxStreams ops id before now creator after ∧
    s.OpenedBy creator ∧ s.Holds (filedUnder id (.addPacket now creator :: after))

theorem accounted_run (maxStreams : Int) (ops : List StreamOp) :
    ∀ id s, (StreamManager.run maxStreams ops).streams.lookup id = some s →
      Accounted maxStreams ops id s := by
  induction ops using List.reverseRecOn with
  | nil =>
    intro id s h
    rw [show (StreamManager.run maxStreams []).streams = ∅ from rfl, AList.lookup_empty] at h
    cases h
  | append_singleton ops op ih =>
    intro id s h
    have hlive : id ∈ (StreamManager.run maxStreams (ops ++ [op])).streams :=
      AList.lookup_isSome.mp (by rw [h]; rfl)
    have hstep : StreamManager.run maxStreams (ops ++ [op])
        = (StreamManager.run maxStreams ops).step op := Run.exec_concat _ ops op
    rw [hstep] at h
    rcases StreamManager.lookup_step h with ⟨hne, hs⟩ | ⟨now, pkt, rfl, hf, hs⟩
    · obtain ⟨before, t, creator, after, hc, ho, hh⟩ := ih id s hs
      refine ⟨before, t, creator, after ++ [op], hc.concat hlive, ho, ?_⟩
      rw [← List.cons_append, filedUnder_concat_of_ne hne]
      exact hh
    · rcases hs with ⟨s₀, hs₀, rfl⟩ | ⟨hnone, p, rfl⟩
      · obtain ⟨before, t, creator, after, hc, ho, hh⟩ := ih id s₀ hs₀
        refine ⟨before, t, creator, after ++ [.addPacket now pkt], hc.concat hlive,
          ho.add now pkt, ?_⟩
        rw [← List.cons_append, filedUnder_concat_of_eq hf]
        exact hh.add now pkt
      · -- the call that creates the stream is the first it knows of
        refine ⟨ops, now, pkt, [], ⟨rfl, hf, ?_, ?_⟩,
          (Stream.openedBy_newStream now pkt p).add now pkt, ?_⟩
        · rw [← AList.lookup_eq_none]
          exact hnone
        · intro l hl
          rw [List.prefix_nil.mp hl]
          exact hlive
        · have hone : filedUnder id [.addPacket now pkt] = [] ++ [(now, pkt)] :=
            filedUnder_concat_of_eq hf []
          rw [hone]
          exact (Stream.holds_newStream now pkt p).add now pkt

/-- What the calls since its creation say a live stream holds. -/
def ContentExact (maxStreams : Int) (ops : List StreamOp) (id : String) (s : Stream) : Prop :=
  ∃ before now creator after, CreatedAt maxStreams ops id before now creator after ∧
    let filed := filedUnder id (.addPacket now creator :: after)
    s.OpenedBy creator
    ∧ s.packetCount = filed.length
    ∧ s.byteCount = (filed.map fun f => f.2.length).sum
    ∧ s.packets = (filed.take 500).map (fun f => s.record f.1 f.2)
    ∧ s.requestData = (s.payloadOf .request filed).take 65536
    ∧ s.responseData = (s.payloadOf .response filed).take 65536

/--
**Stream content is exact.** A live stream was created by one of the calls and
has been live ever since, and what it holds is said by the packets filed under
its id from that call on.
-/
theorem streamContent_exact (maxStreams : Int) (ops : List StreamOp) (id : String) (s : Stream)
    (hs : (StreamManager.run maxStreams ops).streams.lookup id = some s) :
    ContentExact maxStreams ops id s := by
  obtain ⟨before, now, creator, after, hc, ho, hh⟩ := accounted_run maxStreams ops id s hs
  exact ⟨before, now, creator, after, hc, ho, hh.packetCount, hh.byteCount, hh.packets,
    hh.requestData, hh.responseData⟩

/-- A DNS query. -/
def dnsQuery : PacketInfo :=
  { srcIP := "10.0.0.1", dstIP := "10.0.0.2", srcPort := 5353, dstPort := 53, length := 60,
    payload := [1, 2, 3], protocol := { protocolTCP with name := "DNS" } }

/-- A stream created by a query, cleared, and created again. -/
theorem streamContent_dnsQuery :
    let ops : List StreamOp := [.addPacket 1 dnsQuery, .clear, .addPacket 2 dnsQuery]
    ∃ s, (StreamManager.run 1 ops).streams.lookup (streamIDOf dnsQuery) = some s ∧
      ContentExact 1 ops (streamIDOf dnsQuery) s :=
  ⟨_, rfl, streamContent_exact 1 _ (streamIDOf dnsQuery) _ rfl⟩

end Etherchimp
