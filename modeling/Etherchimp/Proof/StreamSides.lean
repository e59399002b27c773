import Etherchimp.Proof.StreamLink

/-!
# Which side sent a packet

A stream's packets run both ways between the endpoints of the packet that created
it, and each is marked by comparing its source port with the responder's port and
its source address with the responder's address, either of which makes it a
response. So the initiator's own packets are marked as responses whenever the
endpoints share a port or an address.
-/

namespace Etherchimp

/-- An initiated stream has one creation: the calls cannot be split in two ways. -/
theorem CreatedAt.unique {maxStreams : Int} {ops : List StreamOp} {id : String}
    {b b' : List StreamOp} {t t' : Int} {c c' : PacketInfo} {a a' : List StreamOp}
    (h : CreatedAt maxStreams ops id b t c a) (h' : CreatedAt maxStreams ops id b' t' c' a') :
    b = b' ∧ StreamOp.addPacket t c = .addPacket t' c' ∧ a = a' := by
  -- a creation that comes later would find the id live
  have hlate : ∀ {b b' : List StreamOp} {t t' : Int} {c c' : PacketInfo} {a a' l : List StreamOp},
      CreatedAt maxStreams ops id b t c a → CreatedAt maxStreams ops id b' t' c' a' →
      b' = b ++ l → l = [] := by
    intro b b' t t' c c' a a' l h h' hb
    cases l with
    | nil => rfl
    | cons op l =>
      have hcalls := h.calls.symm.trans h'.calls
      rw [hb, List.append_assoc, List.append_cancel_left_eq, List.cons_append,
        List.cons.injEq] at hcalls
      obtain ⟨rfl, ha⟩ := hcalls
      exact absurd (h.alive l ⟨_, ha.symm⟩) (hb ▸ h'.absent)
  have hcalls := h.calls.symm.trans h'.calls
  have hb : b = b' := by
    rcases List.append_eq_append_iff.mp hcalls with ⟨l, hl, _⟩ | ⟨l, hl, _⟩
    · rw [hl, hlate h h' hl, List.append_nil]
    · rw [hl, hlate h' h hl, List.append_nil]
  subst hb
  rw [List.append_cancel_left_eq, List.cons.injEq] at hcalls
  exact ⟨rfl, hcalls⟩

/-! ## The marks -/

/-- The packet comes from the endpoint that created the stream. -/
def FromInitiator (creator pkt : PacketInfo) : Prop := pkt.source = creator.source

instance decidableFromInitiator (creator pkt : PacketInfo) :
    Decidable (FromInitiator creator pkt) :=
  inferInstanceAs (Decidable (pkt.source = creator.source))

/-- Every stored packet is a request if and only if the initiator sent it. -/
def MarksInitiator (s : Stream) (creator : PacketInfo) (filed : List Filing) : Prop :=
  List.Forall₂ (fun stored f => stored.direction = .request ↔ FromInitiator creator f.2)
    s.packets (filed.take 500)

/-- The payloads of the packets the initiator sent, or of the others. -/
def sentBytes (creator : PacketInfo) (initiator : Bool) (filed : List Filing) : List UInt8 :=
  (filed.filter fun f => decide (FromInitiator creator f.2) == initiator).flatMap
    fun f => f.2.payload

/-- The data of each direction is what that side sent, up to the cap. -/
def DataBySide (s : Stream) (creator : PacketInfo) (filed : List Filing) : Prop :=
  s.requestData = (sentBytes creator true filed).take maxStreamPayload ∧
    s.responseData = (sentBytes creator false filed).take maxStreamPayload

/-- The two endpoints differ in the address and in the port. -/
def EndsApart (creator : PacketInfo) : Prop :=
  creator.srcPort ≠ creator.dstPort ∧ creator.srcIP ≠ creator.dstIP

/-- A packet that is not the initiator's shares the responder's port or address. -/
def NoThirdParty (creator pkt : PacketInfo) : Prop :=
  FromInitiator creator pkt ∨ pkt.srcPort = creator.dstPort ∨ pkt.srcIP = creator.dstIP

/-- What the comparison says of a packet of the stream. -/
theorem Stream.directionOf_request {s : Stream} {creator : PacketInfo} (h : s.OpenedBy creator)
    (pkt : PacketInfo) :
    s.directionOf pkt = .request
      ↔ ¬ (pkt.srcPort = creator.dstPort ∨ pkt.srcIP = creator.dstIP) := by
  unfold Stream.directionOf
  rw [h.dstPort, h.dstIP]
  split
  · rename_i hc
    simp [hc]
  · rename_i hc
    simp [hc]

/-- The initiator's packets are told from the responder's only by ends that are apart. -/
theorem initiator_request_iff {s : Stream} {creator pkt : PacketInfo} (h : s.OpenedBy creator)
    (hi : FromInitiator creator pkt) : s.directionOf pkt = .request ↔ EndsApart creator := by
  obtain ⟨hip, hport⟩ := Prod.mk.inj hi
  rw [Stream.directionOf_request h, hip, hport, not_or]
  rfl

/-- With ends apart, a packet is marked right when it is no third party's. -/
theorem request_iff_of_apart {s : Stream} {creator pkt : PacketInfo} (h : s.OpenedBy creator)
    (ha : EndsApart creator) :
    (s.directionOf pkt = .request ↔ FromInitiator creator pkt) ↔ NoThirdParty creator pkt := by
  by_cases hi : FromInitiator creator pkt
  · have hreq := (initiator_request_iff h hi).mpr ha
    exact ⟨fun _ => Or.inl hi, fun _ => ⟨fun _ => hi, fun _ => hreq⟩⟩
  · rw [Stream.directionOf_request h]
    unfold NoThirdParty
    tauto

/-- The stored packets and the packets they record, in step. -/
theorem marksInitiator_iff {s : Stream} {filed : List Filing} (h : s.Holds filed)
    (creator : PacketInfo) : MarksInitiator s creator filed ↔
      ∀ f ∈ filed.take 500, (s.directionOf f.2 = .request ↔ FromInitiator creator f.2) := by
  unfold MarksInitiator
  rw [h.packets, List.forall₂_map_left_iff]
  exact List.forall₂_same

/-- Where every packet filed is marked by its side, the data is split by side. -/
theorem dataBySide_of_marks {s : Stream} {creator : PacketInfo} {filed : List Filing}
    (h : s.Holds filed)
    (hm : ∀ f ∈ filed, (s.directionOf f.2 = .request ↔ FromInitiator creator f.2)) :
    DataBySide s creator filed := by
  have hreq : s.payloadOf .request filed = sentBytes creator true filed := by
    unfold Stream.payloadOf sentBytes
    congr 1
    refine List.filter_congr fun f hf => ?_
    by_cases hi : FromInitiator creator f.2
    · simp [hi, (hm f hf).mpr hi]
    · have hne : s.directionOf f.2 ≠ .request := fun hd => hi ((hm f hf).mp hd)
      simp [hi, hne]
  have hresp : s.payloadOf .response filed = sentBytes creator false filed := by
    unfold Stream.payloadOf sentBytes
    congr 1
    refine List.filter_congr fun f hf => ?_
    cases hd : s.directionOf f.2 with
    | request => simp [(hm f hf).mp hd]
    | response =>
      have hi : ¬ FromInitiator creator f.2 := fun hi => by
        rw [(hm f hf).mpr hi] at hd
        cases hd
      simp [hi]
  exact ⟨hreq ▸ h.requestData, hresp ▸ h.responseData⟩

/-! ## The packets of one stream -/

/-- A packet counted under an id has that id. -/
theorem streamIDOf_of_filed {id : String} {ops : List StreamOp} {f : Filing}
    (h : f ∈ filedUnder id ops) : streamIDOf f.2 = id := by
  obtain ⟨op, _, hop⟩ := List.mem_filterMap.mp h
  cases op with
  | clear => cases hop
  | addPacket now pkt =>
    by_cases hf : (StreamOp.addPacket now pkt).filesUnder = some id
    · have hop : (if (StreamOp.addPacket now pkt).filesUnder = some id
          then some (now, pkt) else none) = some f := hop
      rw [if_pos hf] at hop
      cases hop
      cases hp : hasNoPorts pkt with
      | true => rw [StreamManager.filesUnder_of_noPorts hp] at hf; cases hf
      | false =>
        rw [StreamManager.filesUnder_of_ports hp] at hf
        exact Option.some.inj hf
    · have hnone : StreamOp.filing id (.addPacket now pkt) = none := if_neg hf
      rw [hnone] at hop
      cases hop

/-- Addresses without a dash put no third party in a stream. -/
theorem noThirdParty_of_noDash {id : String} {ops : List StreamOp} {creator : PacketInfo}
    {now : Int} (hc : (now, creator) ∈ filedUnder id ops) {f : Filing}
    (hf : f ∈ filedUnder id ops) (hd : creator.NoDash) (hd' : f.2.NoDash) :
    NoThirdParty creator f.2 := by
  have heq : streamIDOf f.2 = streamIDOf creator :=
    (streamIDOf_of_filed hf).trans (streamIDOf_of_filed hc).symm
  rcases ((streamIDOf_eq_iff hd' hd).mp heq).2 with ⟨hs, _⟩ | ⟨hs, _⟩
  · exact Or.inl hs
  · exact Or.inr (Or.inl (Prod.mk.inj hs).2)

theorem filedUnder_cons_of_eq {id : String} {now : Int} {pkt : PacketInfo}
    (h : (StreamOp.addPacket now pkt).filesUnder = some id) (ops : List StreamOp) :
    filedUnder id (.addPacket now pkt :: ops) = (now, pkt) :: filedUnder id ops :=
  List.filterMap_cons_some (if_pos h)

/--
**Direction follows the initiator exactly where the endpoints are apart.** For a
live stream the stored packets are marked by side if and only if the endpoints differ
in the port and in the address (and no stored packet is a third party's, which
addresses without a dash rule out); where that holds of all the packets filed, the data
is split by side as well.
-/
theorem streamSides_iff (maxStreams : Int) (ops : List StreamOp) (id : String) (s : Stream)
    (before : List StreamOp) (now : Int) (creator : PacketInfo) (after : List StreamOp)
    (hs : (StreamManager.run maxStreams ops).streams.lookup id = some s)
    (hc : CreatedAt maxStreams ops id before now creator after) :
    let filed := filedUnder id (.addPacket now creator :: after)
    (MarksInitiator s creator filed
      ↔ EndsApart creator ∧ ∀ f ∈ filed.take 500, NoThirdParty creator f.2)
    ∧ (EndsApart creator → (∀ f ∈ filed, NoThirdParty creator f.2) → DataBySide s creator filed)
    ∧ ((∀ f ∈ filed, f.2.NoDash) → ∀ f ∈ filed, NoThirdParty creator f.2) := by
  obtain ⟨b, t, c, a, hc', ho, hh⟩ := accounted_run maxStreams ops id s hs
  obtain ⟨-, hcall, rfl⟩ := hc.unique hc'
  cases hcall
  have hfirst := filedUnder_cons_of_eq hc.files after
  have hmem : (now, creator) ∈ filedUnder id (.addPacket now creator :: after) := by
    rw [hfirst]
    exact List.mem_cons_self ..
  refine ⟨?_, fun ha hn => ?_, fun hd f hf => ?_⟩
  · rw [marksInitiator_iff hh]
    constructor
    · intro hm
      -- the creator's own packet is stored, and is marked by the ends alone
      have hin : (now, creator) ∈ (filedUnder id (.addPacket now creator :: after)).take 500 := by
        rw [hfirst]
        exact List.mem_cons_self ..
      have ha : EndsApart creator :=
        (initiator_request_iff ho (show FromInitiator creator creator from rfl)).mp
          ((hm _ hin).mpr rfl)
      exact ⟨ha, fun f hf => (request_iff_of_apart ho ha).mp (hm f hf)⟩
    · rintro ⟨ha, hn⟩ f hf
      exact (request_iff_of_apart ho ha).mpr (hn f hf)
  · exact dataBySide_of_marks hh fun f hf => (request_iff_of_apart ho ha).mpr (hn f hf)
  · exact noThirdParty_of_noDash hmem hf (hd _ hmem) (hd f hf)

/-- A query whose stream the theorem is about, with its answer. -/
theorem streamSides_dnsQuery :
    let answer : PacketInfo := { dnsQuery.swapEnds with payload := [4, 5] }
    let ops : List StreamOp := [.addPacket 1 dnsQuery, .addPacket 2 answer]
    let filed := filedUnder (streamIDOf dnsQuery) ops
    ∃ s, (StreamManager.run 1 ops).streams.lookup (streamIDOf dnsQuery) = some s ∧
      (MarksInitiator s dnsQuery filed
        ↔ EndsApart dnsQuery ∧ ∀ f ∈ filed.take 500, NoThirdParty dnsQuery f.2) := by
  refine ⟨_, rfl, (streamSides_iff 1 _ (streamIDOf dnsQuery) _ [] 1 dnsQuery
    [.addPacket 2 { dnsQuery.swapEnds with payload := [4, 5] }] rfl ⟨rfl, rfl, ?_, ?_⟩).1⟩
  · exact fun h => by cases h
  · intro l hl
    rcases List.prefix_cons_iff.mp hl with rfl | ⟨t, rfl, ht⟩
    · exact AList.lookup_isSome.mp rfl
    · rw [List.prefix_nil.mp ht]
      exact AList.lookup_isSome.mp rfl

/-- A time server polling its peer: both ends use the port of the service. -/
def ntpPacket : PacketInfo :=
  { srcIP := "10.0.0.1", dstIP := "10.0.0.2", srcPort := 123, dstPort := 123, length := 90,
    payload := [1], protocol := { protocolTCP with name := "UDP" } }

/-- Its first packet creates a stream between distinct endpoints and is marked a response. -/
theorem streamSides_ntpPacket :
    let ops : List StreamOp := [.addPacket 1 ntpPacket]
    ∃ s, (StreamManager.run 1000 ops).streams.lookup (streamIDOf ntpPacket) = some s
      ∧ ntpPacket.source ≠ ntpPacket.destination
      ∧ s.packets.map (·.direction) = [.response]
      ∧ s.requestData = [] ∧ s.responseData = [1]
      ∧ ¬ MarksInitiator s ntpPacket (filedUnder (streamIDOf ntpPacket) ops) := by
  refine ⟨_, rfl, by decide, by decide, by decide, by decide, fun h => ?_⟩
  have hfiled : filedUnder (streamIDOf ntpPacket) [.addPacket 1 ntpPacket] = [(1, ntpPacket)] :=
    filedUnder_cons_of_eq rfl []
  rw [hfiled] at h
  rcases h with _ | ⟨hmark, _⟩
  exact absurd (hmark.mpr rfl) (by decide)

end Etherchimp
