import Etherchimp.Graph.Merge

/-!
# The packet path of the graph manager

One packet updates both endpoint nodes, records the frame's MACs on them, and
then updates the edge. Which node an endpoint belongs to is decided three times
along the way: by its hostname or bare address in `addOrUpdateNodeLocked`, by
its MAC in `recordMACLocked`, and by the shared-gateway rule that takes a MAC
identity back in `demoteMACIdentity`.

Every function that reads the clock takes its reading as an argument.
-/

namespace Etherchimp

variable [RuneCase]

namespace Manager

/-! ## Endpoint nodes -/

/-- The hostname an endpoint is filed under: the label of a group address, else the name given. -/
def nodeHostname (ip hostname : String) : String := (groupAddressLabel ip).getD hostname

/-- A hostname merges nodes only when there is one and it is not the address itself. -/
def useHostname (ip hostname : String) : Prop := hostname ≠ "" ∧ hostname ≠ ip

instance (ip hostname : String) : Decidable (useHostname ip hostname) :=
  inferInstanceAs (Decidable (_ ∧ _))

/-- The node id for an endpoint: the hostname's node, a new node for the hostname, or the address. -/
def nodeIDFor (m : Manager) (ip hostname : String) : String :=
  if useHostname ip hostname then (m.hostnameToNodeID.lookup hostname).getD hostname else ip

/-- A hostname seen for the first time becomes a node id of its own. -/
def claimHostname (m : Manager) (ip hostname : String) : Manager :=
  if useHostname ip hostname ∧ m.hostnameToNodeID.lookup hostname = none then
    { m with hostnameToNodeID := m.hostnameToNodeID.insert hostname hostname }
  else m

/-- The address is appended unless it resolves to this node. -/
def appendsIP (m : Manager) (nodeID ip : String) : Bool := m.ipToNodeID.lookup ip ≠ some nodeID

/-- The hostname is taken over by a node that has none of its own. -/
def takesName (node : Node) (ip hostname : String) : Bool :=
  useHostname ip hostname ∧ node.hostname = node.ip

/-- The update of a node that already exists. -/
def seeNode (m : Manager) (node : Node) (nodeID ip hostname : String) (bytes : Nat) (now : Int)
    (isGroup : Bool) : Node :=
  let node := { node with
    packetCount := node.packetCount + 1
    byteCount := node.byteCount + bytes
    lastSeen := now }
  -- the lookup has been written already when this is read
  let newIP := m.appendsIP nodeID ip
  let node := if newIP then { node with ips := node.ips ++ [ip] } else node
  let newName := takesName node ip hostname
  let node := if newName then { node with hostname := hostname } else node
  let node := if newIP || newName then rebuildSearchCorpusLocked node else node
  if isGroup then { node with isGroup := true } else node

/-- An address that belonged to a different node brings that node along. -/
def mergePrevious (m : Manager) (ip hostname nodeID : String) : Manager :=
  let existingNodeID := (m.ipToNodeID.lookup ip).getD ""
  let m := { m with dirty := true }.claimHostname ip hostname
  if existingNodeID ≠ "" ∧ existingNodeID ≠ nodeID then
    m.mergeNodeInto nodeID existingNodeID hostname
  else m

/-- Point the address at its node and count one packet there. -/
def countEndpoint (m : Manager) (nodeID ip hostname : String) (bytes : Nat) (now : Int) :
    Manager :=
  let isGroup := (groupAddressLabel ip).isSome
  let m := { m with ipToNodeID := m.ipToNodeID.insert ip nodeID }
  match m.nodes.lookup nodeID with
  | none =>
      { m with
        nodes := m.nodes.insert nodeID (rebuildSearchCorpusLocked
          { ip := nodeID, hostname := hostname, ips := [ip], packetCount := 1, byteCount := bytes,
            lastSeen := now, isGroup := isGroup }) }
  | some node =>
      { m with
        nodes := m.nodes.insert nodeID (m.seeNode node nodeID ip hostname bytes now isGroup) }

/-- Add a new node or update an existing one. -/
def addOrUpdateNodeLocked (m : Manager) (ip hostname : String) (bytes : Nat) (now : Int) :
    Manager :=
  let hostname := nodeHostname ip hostname
  let nodeID := m.nodeIDFor ip hostname
  (m.mergePrevious ip hostname nodeID).countEndpoint nodeID ip hostname bytes now

/-! ## MAC identity -/

/-- The first address of a node that is no group address. -/
def firstHostIP (ips : List String) : Option String :=
  ips.find? fun ip => (groupAddressLabel ip).isNone

/-- The name a node keeps when its id becomes a MAC. -/
def promotedHostname (node : Node) (nodeID : String) : String :=
  if node.hostname = "" ∨ node.hostname = nodeID then
    let hostname := (firstHostIP node.ips).getD node.hostname
    if hostname = "" then nodeID else hostname
  else node.hostname

/-- Set a re-keyed node's id, and its name when it has none of its own. -/
def nameNode (id hostname mac : String) (n : Node) : Node :=
  rebuildSearchCorpusLocked
    { n with
      ip := id
      hostname := if n.hostname = "" ∨ n.hostname = mac then hostname else n.hostname }

/-- Re-key a node so that its id is the exclusive host MAC. -/
def promoteNodeIDToMAC (m : Manager) (nodeID mac : String) : Manager :=
  if nodeID = "" ∨ mac = "" ∨ nodeID = mac ∨ m.isShared mac then m
  else if ¬ isHostMAC mac then m
  else
    match m.nodes.lookup nodeID with
    | none => m
    | some node =>
        if node.isGroup then m
        -- an id that is a MAC already is left alone
        else if isHostMAC nodeID then m
        else
          let hostname := promotedHostname node nodeID
          let m := m.mergeNodeInto mac nodeID hostname
          let m := { m with
            nodes := m.nodes.adjust mac (nameNode mac hostname mac)
            macToNodeID := m.macToNodeID.insert mac mac }
          let m :=
            if m.hostnameToNodeID.lookup nodeID = some nodeID then
              { m with hostnameToNodeID := m.hostnameToNodeID.erase nodeID }
            else m
          if hostname ≠ "" ∧ hostname ≠ mac then
            { m with hostnameToNodeID := m.hostnameToNodeID.insert hostname mac }
          else m

/--
Re-key the node of a MAC that turned out to be shared back to a unicast address.
Whatever the anchor was, the node demoted is the one keyed by the MAC.
-/
def demoteMACIdentity (m : Manager) (mac : String) : Manager :=
  match m.nodes.lookup mac with
  | none => m
  | some node =>
      let newID := (firstHostIP node.ips).getD ""
      if newID = "" ∨ newID = mac then m
      else
        let hostname := if node.hostname = "" ∨ node.hostname = mac then newID else node.hostname
        let m := m.mergeNodeInto newID mac hostname
        { m with nodes := m.nodes.adjust newID (nameNode newID hostname mac) }

/-- Record the MAC on the node for display and search. -/
def noteMAC (m : Manager) (nodeID mac : String) (node : Node) : Manager :=
  if mac ∈ node.macs then m
  else
    { m with
      nodes := m.nodes.insert nodeID
        (rebuildSearchCorpusLocked { node with macs := node.macs ++ [mac] }) }

/-- Make the node the MAC's anchor and, when allowed, the MAC its id. -/
def anchorMAC (m : Manager) (nodeID mac : String) : Manager :=
  { m with macToNodeID := m.macToNodeID.insert mac nodeID }.promoteNodeIDToMAC nodeID mac

/-- Withhold the MAC from identity for good. -/
def shareMAC (m : Manager) (mac : String) : Manager :=
  { m with macShared := m.macShared.insert mac true, macToNodeID := m.macToNodeID.erase mac }

/-- Attach `mac` to the node and, when safe, use it as the node's identity. -/
def recordMACLocked (m : Manager) (nodeID mac : String) (now : Int) : Manager :=
  if nodeID = "" ∨ ¬ isHostMAC mac then m
  else
    match m.nodes.lookup nodeID with
    | none => m
    | some node =>
        let m := m.noteMAC nodeID mac node
        if m.isShared mac then m
        else
          match m.macToNodeID.lookup mac with
          | none => m.anchorMAC nodeID mac
          | some anchorID =>
              if anchorID = nodeID then m.promoteNodeIDToMAC nodeID mac
              else
                match m.nodes.lookup anchorID with
                | none => m.anchorMAC nodeID mac
                | some anchor =>
                    -- two live hosts on one MAC: a gateway, never an identity again
                    if now - anchor.lastSeen < m.macActiveWindow then
                      (m.shareMAC mac).demoteMACIdentity mac
                    -- the old holder went quiet: the same host under a new address
                    else (m.mergeNodeInto nodeID anchorID node.hostname).anchorMAC nodeID mac

/-! ## Edges -/

/-- Record `bID` as a peer of `aID`. -/
def addPeer (nodes : KeyedMap String Node) (aID bID : String) : KeyedMap String Node :=
  nodes.adjust aID fun a => { a with peers := a.peers.insert bID () }

/-- Record the two endpoints of an edge as each other's peers. -/
def addPeersLocked (m : Manager) (aID bID : String) : Manager :=
  if aID = bID then m
  else if m.nodes.lookup aID = none ∨ m.nodes.lookup bID = none then m
  else { m with nodes := addPeer (addPeer m.nodes aID bID) bID aID }

/-- The node id an address resolves to, the address itself when it is unknown. -/
def resolve (m : Manager) (ip : String) : String := (m.ipToNodeID.lookup ip).getD ip

/-- An edge after one more packet. -/
def countPacket (edge : Edge) (isForward : Bool) (protocol : Protocol) (bytes : Nat) (now : Int) :
    Edge :=
  let edge := { edge with
    packetCount := edge.packetCount + 1, byteCount := edge.byteCount + bytes, lastSeen := now }
  let edge :=
    if isForward then
      { edge with
        forwardPackets := edge.forwardPackets + 1, forwardBytes := edge.forwardBytes + bytes }
    else
      { edge with
        reversePackets := edge.reversePackets + 1, reverseBytes := edge.reverseBytes + bytes }
  if protocol.generic then edge else { edge with protocol := protocol }

/-- The edge a first packet creates. -/
def newEdge (edgeID fromID toID : String) (isForward : Bool) (protocol : Protocol) (bytes : Nat)
    (now : Int) : Edge :=
  { id := edgeID, fromID := fromID, toID := toID, protocol := protocol
    packetCount := 1, byteCount := bytes, lastSeen := now
    forwardPackets := if isForward then 1 else 0
    forwardBytes := if isForward then bytes else 0
    reversePackets := if isForward then 0 else 1
    reverseBytes := if isForward then 0 else bytes }

/-- Count the packet on the flow of this interval. -/
def addFlow (flows : KeyedMap FlowKey TrafficFlow) (fk : FlowKey) (bytes : Nat) :
    KeyedMap FlowKey TrafficFlow :=
  match flows.lookup fk with
  | some flow => flows.insert fk { flow with packets := flow.packets + 1, bytes := flow.bytes + bytes }
  | none =>
      flows.insert fk
        { edgeID := fk.edgeID, fromID := fk.fromID, toID := fk.toID, packets := 1, bytes := bytes
          protocol := fk.protocol, color := fk.color }

/-- The cumulative per-protocol total. -/
def countProtocol (m : Manager) (protocol : Protocol) : Manager :=
  { m with
    dirty := true
    protoCounts := m.protoCounts.insert protocol.name
      ((m.protoCounts.lookup protocol.name).getD 0 + 1) }

/-- Count one packet on the edge with this id, making the edge when it is new. -/
def countOnEdge (m : Manager) (edgeID fromID toID : String) (isForward : Bool)
    (protocol : Protocol) (bytes : Nat) (now : Int) : Manager :=
  match m.edges.lookup edgeID with
  | none =>
      let e := newEdge edgeID fromID toID isForward protocol bytes now
      { m with
        edges := m.edges.insert edgeID e
        edgesByNode := indexEdgeLocked m.edgesByNode e }
  | some edge =>
      { m with edges := m.edges.insert edgeID (countPacket edge isForward protocol bytes now) }

/-- Add a new edge or update an existing one, in either direction. -/
def addOrUpdateEdgeLocked (m : Manager) (srcIP dstIP : String) (protocol : Protocol) (bytes : Nat)
    (now : Int) : Manager :=
  let m := m.countProtocol protocol
  let srcNodeID := m.resolve srcIP
  let dstNodeID := m.resolve dstIP
  let (edgeID, canonicalFrom, canonicalTo) := getCanonicalEdgeID srcNodeID dstNodeID
  let isForward : Bool := srcNodeID = canonicalFrom
  let m := m.addPeersLocked canonicalFrom canonicalTo
  let m := m.countOnEdge edgeID canonicalFrom canonicalTo isForward protocol bytes now
  { m with
    recentFlows := addFlow m.recentFlows
      ⟨edgeID, srcNodeID, dstNodeID, protocol.name, protocol.color⟩ bytes }

/-! ## Observations -/

/-- Directional and port statistics for device-role classification. -/
def addPortObservationLocked (m : Manager) (srcIP dstIP : String) (dstPort : UInt16) : Manager :=
  let srcID := (m.ipToNodeID.lookup srcIP).getD ""
  let dstID := (m.ipToNodeID.lookup dstIP).getD ""
  let nodes := m.nodes.adjust srcID fun src => { src with outPackets := src.outPackets + 1 }
  let nodes := nodes.adjust dstID fun dst =>
    let dst := { dst with inPackets := dst.inPackets + 1 }
    if 0 < dstPort ∧ dstPort < 1024 then
      { dst with listenPorts :=
          dst.listenPorts.insert dstPort ((dst.listenPorts.lookup dstPort).getD 0 + 1) }
    else dst
  { m with nodes := nodes }

/-- Device identity carried by LLDP and CDP frames. -/
def stampDeviceInfoLocked (m : Manager) (pkt : PacketInfo) : Manager :=
  if pkt.deviceKind = "" then m
  else
    match m.ipToNodeID.lookup pkt.srcIP with
    | none => m
    | some id =>
        { m with nodes := m.nodes.adjust id fun n =>
            { n with
              deviceKind := pkt.deviceKind
              deviceInfo := if pkt.deviceInfo ≠ "" then pkt.deviceInfo else n.deviceInfo } }

/-! ## One packet -/

/-- The clock readings of one `Ingest`. -/
structure IngestClock where
  srcSeen : Int := 0
  dstSeen : Int := 0
  srcMAC : Int := 0
  dstMAC : Int := 0
  edgeSeen : Int := 0

/-- Record one MAC of the frame on the node its endpoint resolves to. -/
def recordEndpointMAC (m : Manager) (ip mac : String) (now : Int) : Manager :=
  if mac = "" then m
  else
    match m.ipToNodeID.lookup ip with
    | none => m
    | some id => m.recordMACLocked id mac now

/-- Apply one packet: both nodes, both MACs, the edge, the observations. -/
def ingest (m : Manager) (pkt : PacketInfo) (srcHostname dstHostname : String)
    (clock : IngestClock) : Manager :=
  let m := { m with dirty := true }
  let m := m.addOrUpdateNodeLocked pkt.srcIP srcHostname pkt.length clock.srcSeen
  let m := m.addOrUpdateNodeLocked pkt.dstIP dstHostname pkt.length clock.dstSeen
  let m := m.recordEndpointMAC pkt.srcIP pkt.srcMAC clock.srcMAC
  let m := m.recordEndpointMAC pkt.dstIP pkt.dstMAC clock.dstMAC
  let m := m.addOrUpdateEdgeLocked pkt.srcIP pkt.dstIP pkt.protocol pkt.length clock.edgeSeen
  let m := m.addPortObservationLocked pkt.srcIP pkt.dstIP pkt.dstPort
  m.stampDeviceInfoLocked pkt

end Manager

end Etherchimp
