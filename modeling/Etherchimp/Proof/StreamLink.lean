import Etherchimp.Graph.PacketStore
import Etherchimp.Lib.Separator
import Etherchimp.Proof.StreamContent

/-!
# The stream link of a packet

The packet ring and the stream manager build the id of a packet's stream each on
its own. Where both build one they build the same, and for addresses without a
dash the id is a code for the class and the two endpoints. The guards differ: the
ring gives no link as soon as one port is 0, the manager skips a packet only when
both are.
-/

namespace Etherchimp

namespace PacketInfo

/-- The endpoint that sent the packet. -/
def source (pkt : PacketInfo) : String × UInt16 := (pkt.srcIP, pkt.srcPort)

/-- The endpoint the packet was sent to. -/
def destination (pkt : PacketInfo) : String × UInt16 := (pkt.dstIP, pkt.dstPort)

/-- The packet with its two endpoints exchanged. -/
def swapEnds (pkt : PacketInfo) : PacketInfo :=
  { pkt with
    srcIP := pkt.dstIP
    srcPort := pkt.dstPort
    dstIP := pkt.srcIP
    dstPort := pkt.srcPort }

/-- Neither address contains the dash that stands between the parts of an id. -/
def NoDash (pkt : PacketInfo) : Prop := '-' ∉ pkt.srcIP.toList ∧ '-' ∉ pkt.dstIP.toList

/-- Both packets run between the same two endpoints. -/
def SameEnds (p q : PacketInfo) : Prop :=
  p.source = q.source ∧ p.destination = q.destination ∨
    p.source = q.destination ∧ p.destination = q.source

end PacketInfo

/-! ## Endpoints as text -/

theorem port_digits {c : Char} {n : Nat} (h : c ∈ (toString n).toList) : c.isDigit = true := by
  rw [Nat.toString_eq_repr, Nat.toList_repr] at h
  exact Nat.isDigit_of_mem_toDigits (by decide) (by decide) h

theorem endpointText_toList (ip : String) (port : UInt16) :
    (endpointText ip port).toList = ip.toList ++ ':' :: (toString port.toNat).toList := by
  unfold endpointText
  simp

/-- The port is what stands behind the last colon. -/
theorem endpointText_inj {ip ip' : String} {port port' : UInt16}
    (h : endpointText ip port = endpointText ip' port') : (ip, port) = (ip', port') := by
  have hcolon : ∀ n : Nat, ':' ∉ (toString n).toList := fun n hm =>
    absurd (port_digits hm) (by decide)
  have hl := congrArg String.toList h
  rw [endpointText_toList, endpointText_toList] at hl
  obtain ⟨hip, hport⟩ := Separator.last_inj (hcolon _) (hcolon _) hl
  have hnat : port.toNat = port'.toNat := Nat.repr_injective (String.toList_inj.mp hport)
  rw [String.toList_inj.mp hip, UInt16.toNat_inj.mp hnat]

theorem endpointText_noDash {ip : String} (h : '-' ∉ ip.toList) (port : UInt16) :
    '-' ∉ (endpointText ip port).toList := by
  rw [endpointText_toList]
  intro hm
  rcases List.mem_append.mp hm with hm | hm
  · exact h hm
  · rcases List.mem_cons.mp hm with hm | hm
    · exact absurd hm (by decide)
    · exact absurd (port_digits hm) (by decide)

/-! ## The id as a code -/

/-- The endpoint texts of an id, the lower one first. -/
def orderedEnds (src dst : String) : String × String :=
  if dst < src then (dst, src) else (src, dst)

theorem orderedEnds_comm (src dst : String) : orderedEnds dst src = orderedEnds src dst := by
  unfold orderedEnds
  rcases Std.lt_trichotomy src dst with h | h | h
  · rw [if_pos h, if_neg (String.lt_asymm h)]
  · rw [h]
  · rw [if_neg (String.lt_asymm h), if_pos h]

/-- Ordering a pair forgets its order and nothing else. -/
theorem orderedEnds_inj {a b c d : String} (h : orderedEnds a b = orderedEnds c d) :
    a = c ∧ b = d ∨ a = d ∧ b = c := by
  unfold orderedEnds at h
  by_cases hab : b < a <;> by_cases hcd : d < c
  · rw [if_pos hab, if_pos hcd, Prod.mk.injEq] at h
    exact Or.inl ⟨h.2, h.1⟩
  · rw [if_pos hab, if_neg hcd, Prod.mk.injEq] at h
    exact Or.inr ⟨h.2, h.1⟩
  · rw [if_neg hab, if_pos hcd, Prod.mk.injEq] at h
    exact Or.inr h
  · rw [if_neg hab, if_neg hcd, Prod.mk.injEq] at h
    exact Or.inl h

theorem generateStreamID_toList (srcIP : String) (srcPort : UInt16) (dstIP : String)
    (dstPort : UInt16) (t : StreamType) :
    let ends := orderedEnds (endpointText srcIP srcPort) (endpointText dstIP dstPort)
    (generateStreamID srcIP srcPort dstIP dstPort t).toList
      = t.text.toList ++ '-' :: (ends.1.toList ++ '-' :: ends.2.toList) := by
  have happ : ∀ lo hi : String, (t.text ++ "-" ++ lo ++ "-" ++ hi).toList
      = t.text.toList ++ '-' :: (lo.toList ++ '-' :: hi.toList) := by simp
  unfold generateStreamID orderedEnds
  by_cases h : endpointText dstIP dstPort < endpointText srcIP srcPort
  · simp only [if_pos h]
    exact happ _ _
  · simp only [if_neg h]
    exact happ _ _

theorem orderedEnds_noDash {a b : String} (ha : '-' ∉ a.toList) (hb : '-' ∉ b.toList) :
    '-' ∉ (orderedEnds a b).1.toList := by
  unfold orderedEnds
  split
  · exact hb
  · exact ha

theorem streamType_noDash (t : StreamType) : '-' ∉ t.text.toList := by
  cases t <;> decide

theorem streamType_text_inj {t t' : StreamType} (h : t.text = t'.text) : t = t' := by
  cases t <;> cases t' <;> first | rfl | exact absurd h (by decide)

/-- **The id of dash-free packets is a code** for the class and the unordered endpoints. -/
theorem streamIDOf_eq_iff {p q : PacketInfo} (hp : p.NoDash) (hq : q.NoDash) :
    streamIDOf p = streamIDOf q ↔ streamTypeOf p = streamTypeOf q ∧ p.SameEnds q := by
  unfold streamIDOf
  rw [← String.toList_inj, generateStreamID_toList, generateStreamID_toList]
  constructor
  · intro h
    obtain ⟨htype, hrest⟩ :=
      Separator.first_inj (streamType_noDash _) (streamType_noDash _) h
    obtain ⟨hlo, hhi⟩ := Separator.first_inj
      (orderedEnds_noDash (endpointText_noDash hp.1 _) (endpointText_noDash hp.2 _))
      (orderedEnds_noDash (endpointText_noDash hq.1 _) (endpointText_noDash hq.2 _)) hrest
    refine ⟨streamType_text_inj (String.toList_inj.mp htype), ?_⟩
    have hends := Prod.ext (String.toList_inj.mp hlo) (String.toList_inj.mp hhi)
    rcases orderedEnds_inj hends with ⟨hs, hd⟩ | ⟨hs, hd⟩
    · exact Or.inl ⟨endpointText_inj hs, endpointText_inj hd⟩
    · exact Or.inr ⟨endpointText_inj hs, endpointText_inj hd⟩
  · rintro ⟨htype, ⟨hs, hd⟩ | ⟨hs, hd⟩⟩
    · obtain ⟨hsip, hsport⟩ := Prod.mk.inj hs
      obtain ⟨hdip, hdport⟩ := Prod.mk.inj hd
      rw [htype, hsip, hsport, hdip, hdport]
    · obtain ⟨hsip, hsport⟩ := Prod.mk.inj hs
      obtain ⟨hdip, hdport⟩ := Prod.mk.inj hd
      rw [htype, hsip, hsport, hdip, hdport, orderedEnds_comm]

/-- Exchanging the endpoints keeps the id. -/
theorem streamIDOf_swapEnds (pkt : PacketInfo) : streamIDOf pkt.swapEnds = streamIDOf pkt := by
  unfold streamIDOf
  rw [← String.toList_inj, generateStreamID_toList, generateStreamID_toList]
  have hcomm := orderedEnds_comm (endpointText pkt.srcIP pkt.srcPort)
    (endpointText pkt.dstIP pkt.dstPort)
  dsimp only [PacketInfo.swapEnds]
  rw [hcomm]
  rfl

/-! ## The two builders -/

theorem streamIDOf_ne_empty (pkt : PacketInfo) : streamIDOf pkt ≠ "" := by
  intro h
  have hl := congrArg String.toList h
  unfold streamIDOf at hl
  rw [generateStreamID_toList] at hl
  exact absurd hl (by simp)

/-- The ring's key is the manager's id, except that it is empty without both ports. -/
theorem streamLink_eq (pkt : PacketInfo) :
    streamLink pkt = if pkt.srcPort = 0 ∨ pkt.dstPort = 0 then "" else streamIDOf pkt := by
  unfold streamLink streamKey streamIDOf generateStreamID streamTypeOf
  by_cases h : pkt.protocol.name = "UDP" ∨ pkt.protocol.name = "DNS"
  · rw [if_pos h, if_pos h]
    rfl
  · rw [if_neg h, if_neg h]
    rfl

theorem streamLink_eq_empty (pkt : PacketInfo) :
    streamLink pkt = "" ↔ pkt.srcPort = 0 ∨ pkt.dstPort = 0 := by
  rw [streamLink_eq]
  by_cases h : pkt.srcPort = 0 ∨ pkt.dstPort = 0
  · simp [h]
  · simp [h, streamIDOf_ne_empty]

/-! ## What the manager files where -/

namespace StreamManager

/-- How many packets the stream under `id` has counted. -/
def countUnder (m : StreamManager) (id : String) : Nat :=
  match m.streams.lookup id with
  | some s => s.packetCount
  | none => 0

/-- A packet with ports counts one more under its id. -/
theorem countUnder_addPacket {pkt : PacketInfo} (hp : hasNoPorts pkt = false) (m : StreamManager)
    (now : Int) : (m.addPacket now pkt).countUnder (streamIDOf pkt)
      = m.countUnder (streamIDOf pkt) + 1 := by
  have hcount : ∀ s : Stream, (s.add now pkt).packetCount = s.packetCount + 1 := by
    intro s
    obtain ⟨protocol, summary, heq⟩ := s.add_eq now pkt
    rw [heq]
    rfl
  unfold countUnder
  rcases hs : m.streams.lookup (streamIDOf pkt) with _ | s
  · rw [addPacket_of_none hp hs, KeyedMap.lookup_insert_eq, if_pos rfl]
    exact hcount _
  · rw [addPacket_of_some hp hs, KeyedMap.lookup_insert_eq, if_pos rfl]
    exact hcount s

end StreamManager

/-- `AddPacket` files the packet under `id`: whatever the table, that stream counts it. -/
def FiledAs (pkt : PacketInfo) (id : String) : Prop :=
  ∀ (m : StreamManager) (now : Int), (m.addPacket now pkt).countUnder id = m.countUnder id + 1

/-- `AddPacket` ignores the packet. -/
def IgnoredPacket (pkt : PacketInfo) : Prop :=
  ∀ (m : StreamManager) (now : Int), m.addPacket now pkt = m

theorem ignoredPacket_iff (pkt : PacketInfo) : IgnoredPacket pkt ↔ hasNoPorts pkt = true := by
  constructor
  · intro h
    by_contra hp
    have hp : hasNoPorts pkt = false := by simpa using hp
    have hone := StreamManager.countUnder_addPacket hp (newStreamManager 1) 0
    rw [h (newStreamManager 1) 0] at hone
    omega
  · intro hp m now
    exact StreamManager.addPacket_of_noPorts hp m now

theorem filedAs_iff (pkt : PacketInfo) (id : String) :
    FiledAs pkt id ↔ hasNoPorts pkt = false ∧ id = streamIDOf pkt := by
  constructor
  · intro h
    have hone := h (newStreamManager 1) 0
    have hzero : (newStreamManager 1).countUnder id = 0 := rfl
    rw [hzero] at hone
    cases hp : hasNoPorts pkt with
    | true =>
      rw [StreamManager.addPacket_of_noPorts hp, hzero] at hone
      omega
    | false =>
      refine ⟨rfl, ?_⟩
      by_contra hid
      have hnone : (newStreamManager 1).streams.lookup (streamIDOf pkt) = none := rfl
      -- a table with one stream counts nothing under another id
      rw [StreamManager.addPacket_of_none hp hnone] at hone
      unfold StreamManager.countUnder at hone
      have hother : (newStreamManager 1).makeRoom.streams.lookup id = none :=
        StreamManager.lookup_makeRoom_none rfl
      rw [KeyedMap.lookup_insert_eq, if_neg hid, hother] at hone
      exact absurd hone (by simp)
  · rintro ⟨hp, rfl⟩ m now
    exact StreamManager.countUnder_addPacket hp m now

/-! ## The link -/

/-- The link names the stream the packet is filed under, and is empty for one that is ignored. -/
structure LinkRight (pkt : PacketInfo) : Prop where
  names : ∀ id, FiledAs pkt id → streamLink pkt = id
  empty : streamLink pkt = "" ↔ IgnoredPacket pkt

/--
The links of two packets are right, do not depend on direction, and, for packets
that are filed and have no dash in an address, tell class and endpoints apart.
-/
structure LinksRight (p q : PacketInfo) : Prop where
  left : LinkRight p
  right : LinkRight q
  swap : streamLink p.swapEnds = streamLink p ∧ streamLink q.swapEnds = streamLink q
  code : p.NoDash → q.NoDash → ¬ IgnoredPacket p → ¬ IgnoredPacket q →
    (streamLink p = streamLink q ∧ streamLink p ≠ ""
      ↔ streamTypeOf p = streamTypeOf q ∧ p.SameEnds q)

/-- The packet has both ports or neither. -/
def PortsAgree (pkt : PacketInfo) : Prop := pkt.srcPort = 0 ↔ pkt.dstPort = 0

theorem streamLink_swapEnds (pkt : PacketInfo) :
    streamLink pkt.swapEnds = streamLink pkt := by
  rw [streamLink_eq, streamLink_eq, streamIDOf_swapEnds]
  exact if_congr or_comm rfl rfl

theorem linkRight_iff (pkt : PacketInfo) : LinkRight pkt ↔ PortsAgree pkt := by
  have hno : hasNoPorts pkt = true ↔ pkt.srcPort = 0 ∧ pkt.dstPort = 0 := by
    unfold hasNoPorts
    exact decide_eq_true_iff
  have hempty : LinkRight pkt → PortsAgree pkt := by
    intro h
    have := h.empty
    rw [streamLink_eq_empty, ignoredPacket_iff, hno] at this
    unfold PortsAgree
    tauto
  refine ⟨hempty, fun h => ⟨fun id hid => ?_, ?_⟩⟩
  · obtain ⟨hp, rfl⟩ := (filedAs_iff pkt id).mp hid
    have hp : ¬ (pkt.srcPort = 0 ∧ pkt.dstPort = 0) := fun hc => by simp [hno.mpr hc] at hp
    have hports : ¬ (pkt.srcPort = 0 ∨ pkt.dstPort = 0) := by
      unfold PortsAgree at h
      tauto
    rw [streamLink_eq, if_neg hports]
  · rw [streamLink_eq_empty, ignoredPacket_iff, hno]
    unfold PortsAgree at h
    tauto

/--
**The stream link is right exactly where the guards agree**, on packets with both
ports or neither.
-/
theorem streamLink_right_iff (p q : PacketInfo) :
    LinksRight p q ↔ PortsAgree p ∧ PortsAgree q := by
  constructor
  · intro h
    exact ⟨(linkRight_iff p).mp h.left, (linkRight_iff q).mp h.right⟩
  · rintro ⟨hp, hq⟩
    have hleft := (linkRight_iff p).mpr hp
    have hright := (linkRight_iff q).mpr hq
    refine ⟨hleft, hright, ⟨streamLink_swapEnds p, streamLink_swapEnds q⟩, ?_⟩
    intro hdp hdq hip hiq
    -- a filed packet's link is the manager's id
    have hlink : ∀ {r : PacketInfo}, LinkRight r → ¬ IgnoredPacket r →
        streamLink r = streamIDOf r := by
      intro r hr hi
      rw [ignoredPacket_iff, Bool.not_eq_true] at hi
      exact hr.names _ ((filedAs_iff r _).mpr ⟨hi, rfl⟩)
    rw [hlink hleft hip, hlink hright hiq, ← streamIDOf_eq_iff hdp hdq]
    exact and_iff_left (streamIDOf_ne_empty p)

/-- A datagram from port 0, as some scanners and tunnels send them. -/
def portZeroPacket : PacketInfo :=
  { srcIP := "10.0.0.1", dstIP := "10.0.0.2", srcPort := 0, dstPort := 53, length := 60 }

/-- It is filed under a stream, and its link is empty. -/
theorem streamLink_portZero :
    FiledAs portZeroPacket "TCP-10.0.0.1:0-10.0.0.2:53" ∧ streamLink portZeroPacket = ""
    ∧ ¬ LinksRight portZeroPacket portZeroPacket := by
  have hfiled : FiledAs portZeroPacket "TCP-10.0.0.1:0-10.0.0.2:53" :=
    (filedAs_iff _ _).mpr ⟨by decide, by decide⟩
  refine ⟨hfiled, by decide, fun h => ?_⟩
  exact absurd (h.left.names _ hfiled) (by decide)

end Etherchimp
