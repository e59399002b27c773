import Etherchimp.Capture.Local
import Etherchimp.Capture.Packet

/-!
# From a decoded frame to a packet record

The packet decoder itself is a library outside the repository. What it hands over
is a list of typed layers; `Gopacket` is that library as far as the pipeline
calls it again, to decode what a tunnel carries. Text inside a layer is a
`String`, every other field is as wide as on the wire.
-/

namespace Etherchimp

open Panic

/-! ## Layers -/

structure Ethernet where
  srcMAC : List UInt8
  dstMAC : List UInt8

structure IPv4 where
  srcIP : List UInt8
  dstIP : List UInt8
  srcIP_length : srcIP.length = 4 := by decide
  dstIP_length : dstIP.length = 4 := by decide

structure IPv6 where
  srcIP : List UInt8
  dstIP : List UInt8
  srcIP_length : srcIP.length = 16 := by decide
  dstIP_length : dstIP.length = 16 := by decide

/-- The length of the protocol addresses is a byte of the frame. -/
structure ARP where
  protAddressSize : UInt8
  sourceProtAddress : List UInt8
  dstProtAddress : List UInt8
  source_length : sourceProtAddress.length = protAddressSize.toNat := by decide
  dst_length : dstProtAddress.length = protAddressSize.toNat := by decide

/-- The ports of a TCP or a UDP header. -/
structure Ports where
  srcPort : UInt16
  dstPort : UInt16

/-- The capability bits of an LLDP neighbour that the pipeline reads. -/
structure LLDPCapabilities where
  router : Bool
  bridge : Bool

structure LinkLayerDiscoveryInfo where
  sysName : String
  systemCap : LLDPCapabilities
  enabledCap : LLDPCapabilities
  mgmtAddress : List UInt8

structure CiscoDiscoveryInfo where
  deviceID : String
  l3Router : Bool
  l2Switch : Bool
  portID : String
  mgmtAddresses : List (List UInt8)
  addresses : List (List UInt8)

/-- The layer types the pipeline looks for; every other one is `other`. -/
inductive LayerType where
  | ethernet | dot1Q | ipv4 | ipv6 | arp | tcp | udp
  | linkLayerDiscovery | linkLayerDiscoveryInfo | ciscoDiscovery | ciscoDiscoveryInfo
  | stp | ospf | igmp
  | icmpv6RouterSolicitation | icmpv6RouterAdvertisement
  | icmpv6NeighborSolicitation | icmpv6NeighborAdvertisement
  | icmpv4 | icmpv6 | vxlan | geneve | other
  deriving DecidableEq

/-- The fields of a layer, those the pipeline reads. -/
inductive LayerFields where
  | ethernet (eth : Ethernet)
  | dot1Q (vlanIdentifier : UInt16)
  | ipv4 (ip : IPv4)
  | ipv6 (ip : IPv6)
  | arp (arp : ARP)
  | tcp (tcp : Ports)
  | udp (udp : Ports)
  | linkLayerDiscovery (portID : String)
  | linkLayerDiscoveryInfo (info : LinkLayerDiscoveryInfo)
  | ciscoDiscovery
  | ciscoDiscoveryInfo (cdp : CiscoDiscoveryInfo)
  | stp | ospf | igmp
  | icmpv6RouterSolicitation | icmpv6RouterAdvertisement
  | icmpv6NeighborSolicitation | icmpv6NeighborAdvertisement
  | icmpv4 | icmpv6 | vxlan
  | geneve (protocol : UInt16)
  | other

/-- One decoded layer: its fields, and the bytes after its header. -/
structure PacketLayer where
  fields : LayerFields
  payload : List UInt8 := []

/-- What a layer calls itself. -/
def PacketLayer.layerType (l : PacketLayer) : LayerType :=
  match l.fields with
  | .ethernet _ => .ethernet
  | .dot1Q _ => .dot1Q
  | .ipv4 _ => .ipv4
  | .ipv6 _ => .ipv6
  | .arp _ => .arp
  | .tcp _ => .tcp
  | .udp _ => .udp
  | .linkLayerDiscovery _ => .linkLayerDiscovery
  | .linkLayerDiscoveryInfo _ => .linkLayerDiscoveryInfo
  | .ciscoDiscovery => .ciscoDiscovery
  | .ciscoDiscoveryInfo _ => .ciscoDiscoveryInfo
  | .stp => .stp
  | .ospf => .ospf
  | .igmp => .igmp
  | .icmpv6RouterSolicitation => .icmpv6RouterSolicitation
  | .icmpv6RouterAdvertisement => .icmpv6RouterAdvertisement
  | .icmpv6NeighborSolicitation => .icmpv6NeighborSolicitation
  | .icmpv6NeighborAdvertisement => .icmpv6NeighborAdvertisement
  | .icmpv4 => .icmpv4
  | .icmpv6 => .icmpv6
  | .vxlan => .vxlan
  | .geneve _ => .geneve
  | .other => .other

/-! Type assertions: the fields when the layer is of the asked type. -/

namespace PacketLayer

def asEthernet? (l : PacketLayer) : Option Ethernet :=
  match l.fields with | .ethernet eth => some eth | _ => none

def asDot1Q? (l : PacketLayer) : Option UInt16 :=
  match l.fields with | .dot1Q id => some id | _ => none

def asIPv4? (l : PacketLayer) : Option IPv4 :=
  match l.fields with | .ipv4 ip => some ip | _ => none

def asIPv6? (l : PacketLayer) : Option IPv6 :=
  match l.fields with | .ipv6 ip => some ip | _ => none

def asARP? (l : PacketLayer) : Option ARP :=
  match l.fields with | .arp arp => some arp | _ => none

def asTCP? (l : PacketLayer) : Option Ports :=
  match l.fields with | .tcp tcp => some tcp | _ => none

def asUDP? (l : PacketLayer) : Option Ports :=
  match l.fields with | .udp udp => some udp | _ => none

def asLinkLayerDiscovery? (l : PacketLayer) : Option String :=
  match l.fields with | .linkLayerDiscovery portID => some portID | _ => none

def asLinkLayerDiscoveryInfo? (l : PacketLayer) : Option LinkLayerDiscoveryInfo :=
  match l.fields with | .linkLayerDiscoveryInfo info => some info | _ => none

def asCiscoDiscoveryInfo? (l : PacketLayer) : Option CiscoDiscoveryInfo :=
  match l.fields with | .ciscoDiscoveryInfo cdp => some cdp | _ => none

def asGeneve? (l : PacketLayer) : Option UInt16 :=
  match l.fields with | .geneve protocol => some protocol | _ => none

end PacketLayer

/-- A decoded packet: the frame and its layers, outermost first. -/
structure Packet where
  data : List UInt8
  layers : List PacketLayer

/-- The first layer of a type. -/
def Packet.layer (packet : Packet) (t : LayerType) : Option PacketLayer :=
  packet.layers.find? fun l => l.layerType = t

theorem Packet.layer_type {packet : Packet} {t : LayerType} {l : PacketLayer}
    (h : packet.layer t = some l) : l.layerType = t := by
  simpa using List.find?_some h

theorem Packet.layer_mem {packet : Packet} {t : LayerType} {l : PacketLayer}
    (h : packet.layer t = some l) : l ∈ packet.layers :=
  List.mem_of_find?_eq_some h

/--
The packet library. `newPacket` decodes bytes starting with a layer type; a
header is never empty, so what a transport or tunnel layer carries is shorter
than the bytes it was decoded from.
-/
structure Gopacket where
  newPacket : List UInt8 → LayerType → Packet
  payload_lt : ∀ data first, ∀ l ∈ (newPacket data first).layers,
    l.layerType ∈ [LayerType.udp, .vxlan, .geneve] → l.payload.length < data.length

/-! ## Protocol detection -/

/-- The catalog with its port tables. A name finds an entry of that name. -/
structure Catalog extends Registry where
  tcpPorts : KeyedMap UInt16 String
  udpPorts : KeyedMap UInt16 String
  named : ∀ name p, byName.lookup name = some p → p.name = name

theorem Registry.ofList_named (all : List Protocol) :
    ∀ name p, (Registry.ofList all).byName.lookup name = some p → p.name = name := by
  suffices h : ∀ m : KeyedMap String Protocol, (∀ n p, m.lookup n = some p → p.name = n) →
      ∀ n p, (all.foldl (fun m p => m.insert p.name p) m).lookup n = some p → p.name = n by
    exact h ∅ fun n p hp => by simp at hp
  induction all with
  | nil => exact fun m hm => hm
  | cons q all ih =>
      refine fun m hm => ih _ fun n p hp => ?_
      rw [KeyedMap.lookup_insert_eq] at hp
      split at hp
      · rename_i hn
        rw [Option.some.injEq] at hp
        rw [← hp, hn]
      · exact hm n p hp

/-- A catalog from its protocol list and its port tables. -/
def Catalog.ofList (all : List Protocol) (tcpPorts udpPorts : KeyedMap UInt16 String) : Catalog where
  toRegistry := Registry.ofList all
  tcpPorts := tcpPorts
  udpPorts := udpPorts
  named := Registry.ofList_named all

def layerDataLink : String := "L2 · Data Link"
def layerNetwork : String := "L3 · Network"
def layerUnknown : String := "— · Unknown"

def protocolUDP : Protocol :=
  { name := "UDP", color := "#2ecc71", generic := true, defaultVisible := true }
def protocolICMP : Protocol :=
  { name := "ICMP", color := "#f39c12", layer := layerNetwork, layerNum := 3, defaultVisible := true }
def protocolIPv6 : Protocol :=
  { name := "IPv6", color := "#7f8c8d", layer := layerNetwork, layerNum := 3 }
def protocolIGMP : Protocol :=
  { name := "IGMP", color := "#c0392b", layer := layerNetwork, layerNum := 3, discovery := true }
def protocolOSPF : Protocol :=
  { name := "OSPF", color := "#f1c40f", layer := layerNetwork, layerNum := 3, discovery := true }
def protocolNDP : Protocol :=
  { name := "NDP", color := "#1f8a70", layer := layerNetwork, layerNum := 3, discovery := true }
def protocolARP : Protocol :=
  { name := "ARP", color := "#95a5a6", layer := layerDataLink, layerNum := 2, discovery := true,
    defaultVisible := true }
def protocolVLAN : Protocol :=
  { name := "VLAN", color := "#d35400", layer := layerDataLink, layerNum := 2 }
def protocolLLDP : Protocol :=
  { name := "LLDP", color := "#27ae60", layer := layerDataLink, layerNum := 2, discovery := true,
    l2Endpoints := true }
def protocolCDP : Protocol :=
  { name := "CDP", color := "#2980b9", layer := layerDataLink, layerNum := 2, discovery := true,
    l2Endpoints := true }
def protocolSTP : Protocol :=
  { name := "STP", color := "#8e44ad", layer := layerDataLink, layerNum := 2, discovery := true }
def protocolOther : Protocol :=
  { name := "Other", color := "#ecf0f1", layer := layerUnknown, layerNum := 0 }

/-- The catalog's entry for a structurally detected protocol, or the built-in one. -/
def resolveProtocol (cat : Catalog) (fallback : Protocol) : Protocol :=
  (cat.byName.lookup fallback.name).getD fallback

/-- Resolve a port pair, destination first, then source, then the bare transport. -/
def lookupPortProtocol (cat : Catalog) (ports : KeyedMap UInt16 String) (srcPort dstPort : UInt16)
    (generic : Protocol) : Protocol :=
  match (ports.lookup dstPort).bind cat.byName.lookup with
  | some p => p
  | none =>
      match (ports.lookup srcPort).bind cat.byName.lookup with
      | some p => p
      | none => resolveProtocol cat generic

/--
Most specific first: link-layer discovery, ARP, routing and control, then the
ports, then the bare network layers.
-/
def detectProtocol (cat : Catalog) (packet : Packet) : Except Panic Protocol := do
  if (packet.layer .linkLayerDiscovery).isSome then return resolveProtocol cat protocolLLDP
  if (packet.layer .ciscoDiscovery).isSome then return resolveProtocol cat protocolCDP
  if (packet.layer .stp).isSome then return resolveProtocol cat protocolSTP
  if (packet.layer .arp).isSome then return resolveProtocol cat protocolARP
  if (packet.layer .ospf).isSome then return resolveProtocol cat protocolOSPF
  if (packet.layer .igmp).isSome then return resolveProtocol cat protocolIGMP
  if (packet.layer .icmpv6RouterSolicitation).isSome
      || (packet.layer .icmpv6RouterAdvertisement).isSome
      || (packet.layer .icmpv6NeighborSolicitation).isSome
      || (packet.layer .icmpv6NeighborAdvertisement).isSome then
    return resolveProtocol cat protocolNDP
  if (packet.layer .icmpv4).isSome || (packet.layer .icmpv6).isSome then
    return resolveProtocol cat protocolICMP
  if let some tcpLayer := packet.layer .tcp then
    let tcp ← deref tcpLayer.asTCP?
    return lookupPortProtocol cat cat.tcpPorts tcp.srcPort tcp.dstPort protocolTCP
  if let some udpLayer := packet.layer .udp then
    let udp ← deref udpLayer.asUDP?
    return lookupPortProtocol cat cat.udpPorts udp.srcPort udp.dstPort protocolUDP
  if (packet.layer .dot1Q).isSome then return resolveProtocol cat protocolVLAN
  if (packet.layer .ipv6).isSome then return resolveProtocol cat protocolIPv6
  return resolveProtocol cat protocolOther

/-! ## Tunnels -/

/--
The packet inside a VXLAN or Geneve tunnel. The tunnel's own header is decoded
from the UDP payload; the type field of a Geneve header says what follows it.
-/
def decapOverlay (go : Gopacket) (packet : Packet) (name : String) : Option Packet :=
  match packet.layer .udp with
  | none => none
  | some udpLayer =>
      if udpLayer.asUDP? = none ∨ udpLayer.payload = [] then none
      else if name = "VXLAN" then
        ((go.newPacket udpLayer.payload .vxlan).layer .vxlan).map fun v =>
          go.newPacket v.payload .ethernet
      else if name = "Geneve" then
        ((go.newPacket udpLayer.payload .geneve).layer .geneve).map fun g =>
          go.newPacket g.payload
            (if g.asGeneve? = some 0x0800 then .ipv4
              else if g.asGeneve? = some 0x86DD then .ipv6
              else .ethernet)
      else none

/-! ## Link-layer topology -/

/-- The endpoints of a frame without IP addresses, and what it says about its source. -/
structure L2Endpoints where
  srcID : String := ""
  dstID : String := ""
  srcName : String := ""
  dstName : String := ""
  deviceKind : String := ""
  deviceInfo : String := ""

/-- White space in the sense of `unicode.IsSpace`. -/
def isSpace (c : Char) : Bool :=
  (9 ≤ c.toNat ∧ c.toNat ≤ 13) ∨ (0x2000 ≤ c.toNat ∧ c.toNat ≤ 0x200A)
    ∨ c.toNat ∈ [0x20, 0x85, 0xA0, 0x1680, 0x2028, 0x2029, 0x202F, 0x205F, 0x3000]

/-- `strings.TrimSpace`. -/
def trimSpace (s : String) : String :=
  String.ofList (((s.toList.dropWhile isSpace).reverse.dropWhile isSpace).reverse)

/-- One part of the device line, left out when it is empty. -/
def devicePart (label s : String) : List String := if s = "" then [] else [label ++ s]

/-- An LLDP management address, when it is an IP. -/
def mgmtIPString (addr : List UInt8) : String :=
  if addr.length = 4 ∨ addr.length = 16 then ipString (octets addr) else ""

/-- What an LLDP neighbour advertises about the source. -/
def lldpIdentity (packet : Packet) (ends : L2Endpoints) : L2Endpoints :=
  match (packet.layer .linkLayerDiscoveryInfo).bind PacketLayer.asLinkLayerDiscoveryInfo? with
  | none => ends
  | some info =>
      let port :=
        match (packet.layer .linkLayerDiscovery).bind PacketLayer.asLinkLayerDiscovery? with
        | some portID => devicePart "port " (trimSpace portID)
        | none => []
      { ends with
        srcName := if info.sysName ≠ "" then info.sysName else ends.srcName
        deviceKind :=
          if info.systemCap.router || info.enabledCap.router then "router"
          else if info.systemCap.bridge || info.enabledCap.bridge then "switch"
          else ends.deviceKind
        deviceInfo := " · ".intercalate (port ++ devicePart "mgmt " (mgmtIPString info.mgmtAddress)) }

/-- The management part of a CDP device line: the first management or plain address. -/
def cdpMgmt (cdp : CiscoDiscoveryInfo) : Except Panic (List String) :=
  let ips := if cdp.mgmtAddresses.length = 0 then cdp.addresses else cdp.mgmtAddresses
  if 0 < ips.length then (index ips 0).map fun ip => ["mgmt " ++ ipString (octets ip)]
  else return []

/-- What a CDP neighbour advertises about the source. -/
def cdpIdentity (packet : Packet) (ends : L2Endpoints) : Except Panic L2Endpoints :=
  match (packet.layer .ciscoDiscoveryInfo).bind PacketLayer.asCiscoDiscoveryInfo? with
  | none => return ends
  | some cdp => do
      let mgmt ← cdpMgmt cdp
      return { ends with
        srcName := if cdp.deviceID ≠ "" then cdp.deviceID else ends.srcName
        deviceKind :=
          if cdp.l3Router then "router" else if cdp.l2Switch then "switch" else ends.deviceKind
        deviceInfo := " · ".intercalate (devicePart "port " (trimSpace cdp.portID) ++ mgmt) }

/-- Endpoints from the Ethernet addresses of a frame that has no IP addresses. -/
def extractL2Endpoints (packet : Packet) (protocol : Protocol) : Except Panic L2Endpoints :=
  match packet.layer .ethernet with
  | none => return {}
  | some ethLayer => do
      let eth ← deref ethLayer.asEthernet?
      let ends : L2Endpoints :=
        { srcID := hwString eth.srcMAC, dstID := hwString eth.dstMAC
          dstName := protocol.name ++ " group" }
      if protocol.l2Endpoints then
        if protocol.name = "LLDP" then return lldpIdentity packet ends
        else if protocol.name = "CDP" then cdpIdentity packet ends
        else return ends
      else return ends

/-! ## The record -/

/-- The addresses of a packet as text, and as bytes where the frame has them so. -/
structure IPEndpoints where
  srcIP : String
  dstIP : String
  srcNetIP : Option (List Nat) := none
  dstNetIP : Option (List Nat) := none

/-- A protocol address of an ARP header, read as four decimal fields. -/
def arpAddress (a : List UInt8) : Except Panic String := do
  let b0 ← index a 0
  let b1 ← index a 1
  let b2 ← index a 2
  let b3 ← index a 3
  return ".".intercalate ([b0, b1, b2, b3].map fun b => toString b.toNat)

/-- Both addresses of an ARP header. -/
def arpEndpoints (arp : ARP) : Except Panic (Option IPEndpoints) := do
  let srcIP ← arpAddress arp.sourceProtAddress
  let dstIP ← arpAddress arp.dstProtAddress
  return some { srcIP := srcIP, dstIP := dstIP }

/-- The addresses of a packet: IPv4 first, then IPv6, then ARP. -/
def ipEndpoints (packet : Packet) : Except Panic (Option IPEndpoints) :=
  match packet.layer .ipv4 with
  | some ipLayer => do
      let ip ← deref ipLayer.asIPv4?
      return some
        { srcIP := ipString (octets ip.srcIP), dstIP := ipString (octets ip.dstIP)
          srcNetIP := some (octets ip.srcIP), dstNetIP := some (octets ip.dstIP) }
  | none =>
      match packet.layer .ipv6 with
      | some ipLayer => do
          let ip ← deref ipLayer.asIPv6?
          return some
            { srcIP := ipString (octets ip.srcIP), dstIP := ipString (octets ip.dstIP)
              srcNetIP := some (octets ip.srcIP), dstNetIP := some (octets ip.dstIP) }
      | none =>
          match packet.layer .arp with
          | some arpLayer => do
              let arp ← deref arpLayer.asARP?
              arpEndpoints arp
          | none => return none

/-- Whether one endpoint is local or multicast, by its bytes when there are any. -/
def endpointLocal (text : String) (netIP : Option (List Nat)) : Except Panic Bool := do
  let byText ← isLocalOrMulticastAddress text
  match netIP with
  | some ip => isLocalOrMulticastIP ip
  | none => return byText

/-- The transport ports, 0 where there are none. -/
def transportPorts (packet : Packet) : Except Panic (UInt16 × UInt16) :=
  match packet.layer .tcp with
  | some tcpLayer => do
      let tcp ← deref tcpLayer.asTCP?
      return (tcp.srcPort, tcp.dstPort)
  | none =>
      match packet.layer .udp with
      | some udpLayer => do
          let udp ← deref udpLayer.asUDP?
          return (udp.srcPort, udp.dstPort)
      | none => return (0, 0)

/-- The first bytes of the frame. -/
def copyPayload (packet : Packet) : Except Panic (List UInt8) :=
  slice packet.data (min packet.data.length maxPayloadCopy)

/-- The VLAN tag of a tagged frame, 0 otherwise. -/
def vlanIdentifier (packet : Packet) : UInt16 :=
  ((packet.layer .dot1Q).bind PacketLayer.asDot1Q?).getD 0

/-- Link-layer protocols without IP addresses. -/
def Protocol.l2Topology (p : Protocol) : Bool :=
  p.layerNum = 2 && p.name ≠ "ARP" && p.name ≠ "VLAN"

/-- The record of a link-layer topology frame. -/
def processTopology (packet : Packet) (protocol : Protocol) : Except Panic (Option PacketInfo) := do
  let ends ← extractL2Endpoints packet protocol
  if ends.srcID = "" then return none
  let payload ← copyPayload packet
  return some
    { srcIP := ends.srcID, dstIP := ends.dstID, protocol := protocol
      length := packet.data.length, payload := payload, vlanID := vlanIdentifier packet
      srcName := ends.srcName, dstName := ends.dstName
      deviceKind := ends.deviceKind, deviceInfo := ends.deviceInfo }

/-- The record of a frame with addresses, `none` when the filter drops it. -/
def processAddressed (packet : Packet) (protocol : Protocol) : Except Panic (Option PacketInfo) := do
  match ← ipEndpoints packet with
  | none => return none
  | some ips =>
      let srcLocal ← endpointLocal ips.srcIP ips.srcNetIP
      let dstLocal ← endpointLocal ips.dstIP ips.dstNetIP
      if !protocol.discovery && (srcLocal || dstLocal) then return none
      let ports ← transportPorts packet
      let eth := (packet.layer .ethernet).bind PacketLayer.asEthernet?
      let payload ← copyPayload packet
      return some
        { srcIP := ips.srcIP, dstIP := ips.dstIP
          srcMAC := (eth.map fun e => hwString e.srcMAC).getD ""
          dstMAC := (eth.map fun e => hwString e.dstMAC).getD ""
          srcPort := ports.1, dstPort := ports.2, protocol := protocol
          length := packet.data.length, payload := payload, vlanID := vlanIdentifier packet }

/-- `ProcessPacket` below the decapsulation. -/
def processOuter (packet : Packet) (protocol : Protocol) : Except Panic (Option PacketInfo) :=
  if protocol.l2Topology then processTopology packet protocol
  else processAddressed packet protocol

/-- The packet that is processed instead of a tunnel flagged in the catalog. -/
def innerPacket (go : Gopacket) (packet : Packet) (protocol : Protocol) : Option Packet :=
  if protocol.decap then decapOverlay go packet protocol.name else none

/-- How many bytes the first UDP layer carries. -/
def Packet.overlayBytes (packet : Packet) : Nat :=
  ((packet.layer .udp).map fun l => l.payload.length).getD 0

/-- A packet decoded from a tunnel's payload carries less than the tunnel does. -/
theorem overlayBytes_newPacket_lt {go : Gopacket} {outer : List UInt8} {t first : LayerType}
    {v : PacketLayer} (ht : t ∈ [LayerType.vxlan, .geneve])
    (hv : (go.newPacket outer t).layer t = some v) :
    (go.newPacket v.payload first).overlayBytes < outer.length := by
  have hlt : v.payload.length < outer.length :=
    go.payload_lt _ _ v (Packet.layer_mem hv)
      (Packet.layer_type hv ▸ List.mem_cons_of_mem _ ht)
  unfold Packet.overlayBytes
  cases hu : (go.newPacket v.payload first).layer .udp with
  | none => exact Nat.zero_lt_of_lt hlt
  | some u =>
      have hu' : u.payload.length < v.payload.length :=
        go.payload_lt _ _ u (Packet.layer_mem hu) (Packet.layer_type hu ▸ List.mem_cons_self ..)
      exact Nat.lt_trans hu' hlt

/-- Each decapsulation leaves fewer bytes, so the recursion ends. -/
theorem innerPacket_lt {go : Gopacket} {packet inner : Packet} {protocol : Protocol}
    (h : innerPacket go packet protocol = some inner) :
    inner.overlayBytes < packet.overlayBytes := by
  unfold innerPacket at h
  split at h
  · unfold decapOverlay at h
    split at h
    · cases h
    · rename_i udpLayer hudp
      have hout : packet.overlayBytes = udpLayer.payload.length := by
        rw [Packet.overlayBytes, hudp]
        rfl
      rw [hout]
      split at h
      · cases h
      · split at h
        · obtain ⟨v, hv, rfl⟩ := Option.map_eq_some_iff.mp h
          exact overlayBytes_newPacket_lt (by decide) hv
        · split at h
          · obtain ⟨g, hg, rfl⟩ := Option.map_eq_some_iff.mp h
            exact overlayBytes_newPacket_lt (by decide) hg
          · cases h
  · cases h

/--
A packet's record, `none` when it is dropped. A tunnel is replaced by what it
carries, unless that is dropped: then the tunnel itself is recorded.
-/
def processPacket (go : Gopacket) (cat : Catalog) (packet : Packet) :
    Except Panic (Option PacketInfo) := do
  let protocol ← detectProtocol cat packet
  match _h : innerPacket go packet protocol with
  | none => processOuter packet protocol
  | some inner =>
      match ← processPacket go cat inner with
      | some info => return some info
      | none => processOuter packet protocol
termination_by packet.overlayBytes
decreasing_by exact innerPacket_lt _h

end Etherchimp
