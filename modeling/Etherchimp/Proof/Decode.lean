import Etherchimp.Capture.Decode
import Mathlib.Logic.Relation

/-!
# Which frames crash the decoder

Nothing recovers a panic of a capture reader, so a frame that makes
`processPacket` panic stops the program. Every checked read of the pipeline is
covered by what the layer it reads guarantees, with one exception: the ARP branch
reads four bytes of addresses whose length is a byte of the frame.

The result is exact. A packet is processed unless some packet the processing
reaches, the frame itself or one carried by a tunnel, gets to the ARP branch with
addresses shorter than four bytes.
-/

namespace Etherchimp

open Panic

/-! ## Type assertions succeed -/

/-- The layer holds the fields of a type whose assertion is not checked. -/
def PacketLayer.Holds (l : PacketLayer) : LayerType → Prop
  | .ethernet => ∃ x, l.asEthernet? = some x
  | .ipv4 => ∃ x, l.asIPv4? = some x
  | .ipv6 => ∃ x, l.asIPv6? = some x
  | .arp => ∃ x, l.asARP? = some x
  | .tcp => ∃ x, l.asTCP? = some x
  | .udp => ∃ x, l.asUDP? = some x
  | _ => True

/-- A layer holds the fields its type names. -/
theorem PacketLayer.holds (l : PacketLayer) : l.Holds l.layerType := by
  obtain ⟨fields, payload⟩ := l
  cases fields with
  | ethernet x => exact ⟨x, rfl⟩
  | ipv4 x => exact ⟨x, rfl⟩
  | ipv6 x => exact ⟨x, rfl⟩
  | arp x => exact ⟨x, rfl⟩
  | tcp x => exact ⟨x, rfl⟩
  | udp x => exact ⟨x, rfl⟩
  | _ => trivial

theorem Packet.layer_holds {packet : Packet} {t : LayerType} {l : PacketLayer}
    (h : packet.layer t = some l) : l.Holds t :=
  Packet.layer_type h ▸ l.holds

/-! ## What cannot panic -/

theorem detectProtocol_runs (cat : Catalog) (packet : Packet) :
    Runs (detectProtocol cat packet) := by
  unfold detectProtocol
  repeat' split
  -- the two port lookups read a header, every other branch returns
  all_goals first
    | exact runs_pure _
    | rename_i h
      exact Runs.bind (runs_deref_iff.mpr (Packet.layer_holds h)) fun _ _ => runs_pure _

theorem copyPayload_runs (packet : Packet) : Runs (copyPayload packet) :=
  runs_slice_iff.mpr (Nat.min_le_left ..)

theorem cdpMgmt_runs (cdp : CiscoDiscoveryInfo) : Runs (cdpMgmt cdp) := by
  unfold cdpMgmt
  generalize (if cdp.mgmtAddresses.length = 0 then cdp.addresses else cdp.mgmtAddresses) = ips
  by_cases hlen : 0 < ips.length
  · simp only [if_pos hlen]
    exact Runs.map (runs_index_iff.mpr hlen) _
  · simp only [if_neg hlen]
    exact runs_pure _

theorem cdpIdentity_runs (packet : Packet) (ends : L2Endpoints) :
    Runs (cdpIdentity packet ends) := by
  unfold cdpIdentity
  split
  · exact runs_pure _
  · exact Runs.bind (cdpMgmt_runs _) fun _ _ => runs_pure _

theorem extractL2Endpoints_runs (packet : Packet) (protocol : Protocol) :
    Runs (extractL2Endpoints packet protocol) := by
  unfold extractL2Endpoints
  split
  · exact runs_pure _
  · rename_i heth
    refine Runs.bind (runs_deref_iff.mpr (Packet.layer_holds heth)) fun _ _ => ?_
    dsimp only
    split
    · split
      · exact runs_pure _
      · split
        · exact cdpIdentity_runs _ _
        · exact runs_pure _
    · exact runs_pure _

theorem processTopology_runs (packet : Packet) (protocol : Protocol) :
    Runs (processTopology packet protocol) := by
  refine Runs.bind (extractL2Endpoints_runs packet protocol) fun _ _ => ?_
  split
  · exact runs_pure _
  · exact Runs.bind (copyPayload_runs packet) fun _ _ => runs_pure _

theorem endpointLocal_runs (text : String) (netIP : Option (List Nat)) :
    Runs (endpointLocal text netIP) := by
  refine Runs.bind (isLocalOrMulticastAddress_runs text) fun _ _ => ?_
  split
  · exact isLocalOrMulticastIP_runs _
  · exact runs_pure _

theorem transportPorts_runs (packet : Packet) : Runs (transportPorts packet) := by
  unfold transportPorts
  split
  · rename_i htcp
    exact Runs.bind (runs_deref_iff.mpr (Packet.layer_holds htcp)) fun _ _ => runs_pure _
  · split
    · rename_i hudp
      exact Runs.bind (runs_deref_iff.mpr (Packet.layer_holds hudp)) fun _ _ => runs_pure _
    · exact runs_pure _

/-! ## The ARP branch -/

/-- The addresses of the packet are taken from this ARP header. -/
def ReadsARP (packet : Packet) (arp : ARP) : Prop :=
  packet.layer .ipv4 = none ∧ packet.layer .ipv6 = none
    ∧ (packet.layer .arp).bind PacketLayer.asARP? = some arp

/-- Four bytes are read, whatever the length. -/
theorem arpAddress_runs_iff (a : List UInt8) : Runs (arpAddress a) ↔ 4 ≤ a.length := by
  unfold arpAddress
  constructor
  · intro h
    obtain ⟨_, _, h⟩ := runs_bind_iff.mp h
    obtain ⟨_, _, h⟩ := runs_bind_iff.mp h
    obtain ⟨_, _, h⟩ := runs_bind_iff.mp h
    obtain ⟨b3, h3, -⟩ := runs_bind_iff.mp h
    have := runs_index_iff.mp ⟨b3, h3⟩
    omega
  · intro h
    refine Runs.bind (runs_index_iff.mpr (by omega)) fun _ _ => ?_
    refine Runs.bind (runs_index_iff.mpr (by omega)) fun _ _ => ?_
    refine Runs.bind (runs_index_iff.mpr (by omega)) fun _ _ => ?_
    exact Runs.bind (runs_index_iff.mpr (by omega)) fun _ _ => runs_pure _

theorem arpEndpoints_runs_iff (arp : ARP) :
    Runs (arpEndpoints arp) ↔ 4 ≤ arp.protAddressSize.toNat := by
  unfold arpEndpoints
  have hs := arp.source_length
  have hd := arp.dst_length
  constructor
  · intro h
    obtain ⟨a, ha, -⟩ := runs_bind_iff.mp h
    have := (arpAddress_runs_iff arp.sourceProtAddress).mp ⟨a, ha⟩
    omega
  · intro h
    refine Runs.bind ((arpAddress_runs_iff _).mpr (by omega)) fun _ _ => ?_
    exact Runs.bind ((arpAddress_runs_iff _).mpr (by omega)) fun _ _ => runs_pure _

/-- The addresses are read without a panic unless ARP addresses are shorter than four bytes. -/
theorem ipEndpoints_runs_iff (packet : Packet) :
    Runs (ipEndpoints packet) ↔ ∀ arp, ReadsARP packet arp → 4 ≤ arp.protAddressSize.toNat := by
  unfold ipEndpoints ReadsARP
  cases h4 : packet.layer .ipv4 with
  | some l =>
      simp only [reduceCtorEq, false_and, false_implies, implies_true, iff_true]
      exact Runs.bind (runs_deref_iff.mpr (Packet.layer_holds h4)) fun _ _ => runs_pure _
  | none =>
      cases h6 : packet.layer .ipv6 with
      | some l =>
          simp only [reduceCtorEq, false_and, and_false, false_implies, implies_true, iff_true]
          exact Runs.bind (runs_deref_iff.mpr (Packet.layer_holds h6)) fun _ _ => runs_pure _
      | none =>
          cases ha : packet.layer .arp with
          | none => simp
          | some l =>
              obtain ⟨arp, harp⟩ : ∃ arp, l.asARP? = some arp := Packet.layer_holds ha
              simp only [harp, deref, Option.bind_some, Option.some.injEq, true_and, forall_eq']
              exact arpEndpoints_runs_iff arp

theorem processAddressed_runs_iff (packet : Packet) (protocol : Protocol) :
    Runs (processAddressed packet protocol)
      ↔ ∀ arp, ReadsARP packet arp → 4 ≤ arp.protAddressSize.toNat := by
  rw [← ipEndpoints_runs_iff]
  refine runs_bind_left fun ips => ?_
  split
  · exact runs_pure _
  · refine Runs.bind (endpointLocal_runs _ _) fun _ _ => ?_
    refine Runs.bind (endpointLocal_runs _ _) fun _ _ => ?_
    split
    · exact runs_pure _
    · refine Runs.bind (transportPorts_runs packet) fun _ _ => ?_
      exact Runs.bind (copyPayload_runs packet) fun _ _ => runs_pure _

/-- The packet gets to the ARP branch with protocol addresses shorter than four bytes. -/
def TruncatedARP (cat : Catalog) (packet : Packet) : Prop :=
  ∃ protocol arp, detectProtocol cat packet = .ok protocol ∧ protocol.l2Topology = false
    ∧ ReadsARP packet arp ∧ arp.protAddressSize.toNat < 4

theorem processOuter_runs_iff {cat : Catalog} {packet : Packet} {protocol : Protocol}
    (hp : detectProtocol cat packet = .ok protocol) :
    Runs (processOuter packet protocol) ↔ ¬ TruncatedARP cat packet := by
  unfold processOuter TruncatedARP
  cases ht : protocol.l2Topology with
  | true =>
      refine iff_of_true (processTopology_runs packet protocol) ?_
      intro ⟨p, _, hp', hl, _⟩
      rw [hp, Except.ok.injEq] at hp'
      rw [← hp', ht] at hl
      cases hl
  | false =>
      rw [if_neg Bool.false_ne_true, processAddressed_runs_iff]
      constructor
      · intro h ⟨_, arp, _, _, harp, hlt⟩
        exact Nat.not_le_of_lt hlt (h arp harp)
      · intro h arp harp
        by_contra hlt
        exact h ⟨protocol, arp, hp, ht, harp, Nat.lt_of_not_le hlt⟩

/-! ## Tunnels -/

/-- Processing the first packet processes the second one, which a tunnel carries. -/
def Tunnels (go : Gopacket) (cat : Catalog) (packet inner : Packet) : Prop :=
  ∃ protocol, detectProtocol cat packet = .ok protocol
    ∧ innerPacket go packet protocol = some inner

theorem resolveProtocol_name (cat : Catalog) (fallback : Protocol) :
    (resolveProtocol cat fallback).name = fallback.name := by
  unfold resolveProtocol
  cases h : cat.byName.lookup fallback.name with
  | none => rfl
  | some p => exact cat.named _ p h

/-- A packet with an ARP header is no tunnel, whatever the catalog's flags say. -/
theorem innerPacket_of_arp {go : Gopacket} {cat : Catalog} {packet : Packet} {protocol : Protocol}
    (ha : (packet.layer .arp).isSome) (hp : detectProtocol cat packet = .ok protocol) :
    innerPacket go packet protocol = none := by
  have hname : protocol.name ∈ ["LLDP", "CDP", "STP", "ARP"] := by
    unfold detectProtocol at hp
    rw [if_pos ha] at hp
    repeat' split at hp
    all_goals
      cases hp
      rw [resolveProtocol_name]
      decide
  unfold innerPacket decapOverlay
  split
  · split
    · rfl
    · have hv : protocol.name ≠ "VXLAN" := by
        intro h; rw [h] at hname; revert hname; decide
      have hg : protocol.name ≠ "Geneve" := by
        intro h; rw [h] at hname; revert hname; decide
      rw [if_neg hv, if_neg hg, ite_self]
  · rfl

theorem not_truncatedARP_of_inner {go : Gopacket} {cat : Catalog} {packet inner : Packet}
    (h : Tunnels go cat packet inner) : ¬ TruncatedARP cat packet := by
  obtain ⟨protocol, hp, hi⟩ := h
  intro ⟨_, arp, _, _, ⟨_, _, harp⟩, _⟩
  have ha : (packet.layer .arp).isSome := by
    cases hl : packet.layer .arp with
    | none => rw [hl] at harp; cases harp
    | some _ => rfl
  rw [innerPacket_of_arp ha hp] at hi
  cases hi

/-- One decapsulation: the tunnel is processed exactly when what it carries is. -/
theorem processPacket_runs_inner {go : Gopacket} {cat : Catalog} {packet inner : Packet}
    (h : Tunnels go cat packet inner) :
    Runs (processPacket go cat packet) ↔ Runs (processPacket go cat inner) := by
  have hout := not_truncatedARP_of_inner h
  obtain ⟨protocol, hp, hi⟩ := h
  rw [processPacket, hp, ok_bind]
  split
  · rename_i hn
    rw [hn] at hi
    cases hi
  · rename_i inner' hi'
    rw [hi', Option.some.injEq] at hi
    subst hi
    refine runs_bind_left fun info => ?_
    split
    · exact runs_pure _
    · exact (processOuter_runs_iff hp).mpr hout

/-- Without a tunnel the packet's own record is all there is. -/
theorem processPacket_runs_outer {go : Gopacket} {cat : Catalog} {packet : Packet}
    (h : ∀ inner, ¬ Tunnels go cat packet inner) :
    Runs (processPacket go cat packet) ↔ ¬ TruncatedARP cat packet := by
  obtain ⟨protocol, hp⟩ := detectProtocol_runs cat packet
  rw [processPacket, hp, ok_bind]
  split
  · exact processOuter_runs_iff hp
  · rename_i inner hi
    exact absurd ⟨protocol, hp, hi⟩ (h inner)

/-- A tunnel carries one packet, with fewer bytes left to decode. -/
theorem Tunnels.unique {go : Gopacket} {cat : Catalog} {packet a b : Packet}
    (ha : Tunnels go cat packet a) (hb : Tunnels go cat packet b) : a = b := by
  obtain ⟨p, hp, hpa⟩ := ha
  obtain ⟨q, hq, hqb⟩ := hb
  rw [hp, Except.ok.injEq] at hq
  rw [← hq, hpa, Option.some.injEq] at hqb
  exact hqb

theorem Tunnels.lt {go : Gopacket} {cat : Catalog} {packet inner : Packet}
    (h : Tunnels go cat packet inner) : inner.overlayBytes < packet.overlayBytes := by
  obtain ⟨_, _, hi⟩ := h
  exact innerPacket_lt hi

/-! ## The result -/

/--
**Exactly which packets are processed.** The decoder returns a record or drops
the packet unless the packet, or one reached from it through tunnels, has an ARP
header that is read and whose protocol addresses are shorter than four bytes.
-/
theorem processPacket_runs_iff (go : Gopacket) (cat : Catalog) (packet : Packet) :
    Runs (processPacket go cat packet)
      ↔ ∀ reached, Relation.ReflTransGen (Tunnels go cat) packet reached →
          ¬ TruncatedARP cat reached := by
  -- the tunnels end because each one leaves fewer bytes
  induction hn : packet.overlayBytes using Nat.strong_induction_on generalizing packet with
  | _ n ih =>
      by_cases ht : ∃ inner, Tunnels go cat packet inner
      · obtain ⟨inner, hi⟩ := ht
        rw [processPacket_runs_inner hi, ih _ (hn ▸ hi.lt) inner rfl]
        constructor
        · intro h reached hr
          rcases Relation.ReflTransGen.cases_head hr with rfl | ⟨next, hnext, hrest⟩
          · exact not_truncatedARP_of_inner hi
          · rw [hi.unique hnext] at h
            exact h reached hrest
        · exact fun h reached hr => h reached (hr.head hi)
      · have hno : ∀ inner, ¬ Tunnels go cat packet inner := fun inner hi => ht ⟨inner, hi⟩
        rw [processPacket_runs_outer hno]
        constructor
        · intro h reached hr
          rcases Relation.ReflTransGen.cases_head hr with rfl | ⟨next, hnext, -⟩
          · exact h
          · exact absurd hnext (hno next)
        · exact fun h => h packet .refl

/-- A broadcast ARP request whose header announces protocol addresses of no bytes. -/
def emptyARPFrame : Packet where
  data := List.replicate 6 0xff ++ [2, 0, 0, 0, 0, 1, 8, 6]
    ++ [0, 1, 8, 0, 6, 0, 0, 1] ++ [2, 0, 0, 0, 0, 1] ++ List.replicate 6 0
  layers :=
    [{ fields := .ethernet { srcMAC := [2, 0, 0, 0, 0, 1], dstMAC := List.replicate 6 0xff }
       payload := [0, 1, 8, 0, 6, 0, 0, 1, 2, 0, 0, 0, 0, 1, 0, 0, 0, 0, 0, 0] },
     { fields := .arp { protAddressSize := 0, sourceProtAddress := [], dstProtAddress := [] } }]

/-- A decoder that finds no layer, for frames that carry no tunnel. -/
def Gopacket.blank : Gopacket where
  newPacket data _ := { data := data, layers := [] }
  payload_lt _ _ _ h := absurd h List.not_mem_nil

/-- One frame from the wire stops the program. -/
theorem processPacket_panics_emptyARP :
    processPacket .blank (Catalog.ofList [] ∅ ∅) emptyARPFrame = .error (.indexOutOfRange 0 0)
      ∧ ¬ ∀ (go : Gopacket) (cat : Catalog) (packet : Packet),
          Runs (processPacket go cat packet) := by
  have hpanic : processPacket .blank (Catalog.ofList [] ∅ ∅) emptyARPFrame
      = .error (.indexOutOfRange 0 0) := by
    rw [processPacket]
    rfl
  refine ⟨hpanic, fun h => ?_⟩
  have hruns := h .blank (Catalog.ofList [] ∅ ∅) emptyARPFrame
  rw [hpanic] at hruns
  exact not_runs_error _ hruns

end Etherchimp
