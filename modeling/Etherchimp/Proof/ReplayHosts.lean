import Etherchimp.Graph.Merge
import Etherchimp.Server.ReplayView

/-!
# The hosts of a replay

Building the same packets twice reads the clock anew, and finds names in the cache that
were looked up the first time. Neither changes a host: the two graphs have the same
nodes, up to when they were last seen.
-/

namespace Etherchimp

open Manager

/-! ## Nodes up to their times -/

/-- The two nodes differ in what no view selects by. -/
structure SameHost (n n' : Node) : Prop where
  ip : n'.ip = n.ip
  hostname : n'.hostname = n.hostname
  ips : n'.ips = n.ips
  packetCount : n'.packetCount = n.packetCount
  isGroup : n'.isGroup = n.isGroup

theorem SameHost.refl (n : Node) : SameHost n n := ⟨rfl, rfl, rfl, rfl, rfl⟩

theorem SameHost.symm {n n' : Node} (h : SameHost n n') : SameHost n' n :=
  ⟨h.ip.symm, h.hostname.symm, h.ips.symm, h.packetCount.symm, h.isGroup.symm⟩

theorem SameHost.trans {a b c : Node} (h : SameHost a b) (h' : SameHost b c) : SameHost a c :=
  ⟨h'.ip.trans h.ip, h'.hostname.trans h.hostname, h'.ips.trans h.ips,
    h'.packetCount.trans h.packetCount, h'.isGroup.trans h.isGroup⟩

/-- The two graphs have the same hosts, and file addresses and names alike. -/
structure Alike (m m' : Manager) : Prop where
  nodes : KeyedMap.Related (fun _ => SameHost) m.nodes m'.nodes
  ipTo : m'.ipToNodeID = m.ipToNodeID
  names : m'.hostnameToNodeID = m.hostnameToNodeID

theorem Alike.of_nodes_eq {m m' : Manager} (hn : m'.nodes = m.nodes)
    (hi : m'.ipToNodeID = m.ipToNodeID) (hh : m'.hostnameToNodeID = m.hostnameToNodeID) :
    Alike m m' :=
  ⟨hn ▸ KeyedMap.related_refl (fun _ => SameHost.refl) m.nodes, hi, hh⟩

theorem Alike.symm {m m' : Manager} (h : Alike m m') : Alike m' m :=
  ⟨h.nodes.symm fun _ _ _ => SameHost.symm, h.ipTo.symm, h.names.symm⟩

theorem Alike.trans {a b c : Manager} (h : Alike a b) (h' : Alike b c) : Alike a c :=
  ⟨KeyedMap.Related.trans (S := fun _ => SameHost) (fun _ _ _ _ hab hbc => hab.trans hbc) h.nodes
    h'.nodes, h'.ipTo.trans h.ipTo, h'.names.trans h.names⟩

/-! ## Steps that leave the hosts alone -/

section Leaves

variable {m : Manager}

/-- An update of one node that leaves the host alone. -/
theorem Alike.adjust (id : String) {f : Node → Node} (hf : ∀ n, SameHost n (f n)) :
    Alike m { m with nodes := m.nodes.adjust id f } :=
  ⟨KeyedMap.related_adjust (fun _ => SameHost.refl) m.nodes hf, rfl, rfl⟩

theorem addPeersLocked_alike (aID bID : String) : Alike m (m.addPeersLocked aID bID) := by
  have hpeer : ∀ (m : Manager) (a b : String), Alike m { m with nodes := addPeer m.nodes a b } :=
    fun m a b => Alike.adjust a fun n => ⟨rfl, rfl, rfl, rfl, rfl⟩
  unfold addPeersLocked
  split
  · exact .of_nodes_eq rfl rfl rfl
  · split
    · exact .of_nodes_eq rfl rfl rfl
    · exact (hpeer m aID bID).trans (hpeer { m with nodes := addPeer m.nodes aID bID } bID aID)

theorem addOrUpdateEdgeLocked_alike (srcIP dstIP : String) (protocol : Protocol) (bytes : Nat)
    (now : Int) : Alike m (m.addOrUpdateEdgeLocked srcIP dstIP protocol bytes now) := by
  unfold addOrUpdateEdgeLocked
  dsimp only
  generalize (m.countProtocol protocol).resolve srcIP = src,
    (m.countProtocol protocol).resolve dstIP = dst
  obtain ⟨key, f, t⟩ := getCanonicalEdgeID src dst
  have h1 : Alike m (m.countProtocol protocol) := .of_nodes_eq rfl rfl rfl
  have h2 := h1.trans (addPeersLocked_alike f t)
  refine h2.trans ?_
  unfold countOnEdge
  dsimp only
  split <;> exact .of_nodes_eq rfl rfl rfl

theorem addPacket_alike (pkt : PacketInfo) : Alike m (m.addPacket pkt) := by
  unfold Manager.addPacket stampDeviceInfoLocked
  split
  · exact .of_nodes_eq rfl rfl rfl
  · split
    · exact .of_nodes_eq rfl rfl rfl
    · have hdirty : Alike m { m with dirty := true } := .of_nodes_eq rfl rfl rfl
      refine hdirty.trans (Alike.adjust _ fun n => ?_)
      exact ⟨rfl, rfl, rfl, rfl, rfl⟩

/-- A role is none of what a view selects by. -/
theorem commitRole_sameHost (n : Node) (now : Int) : SameHost n (commitRole n now) := by
  unfold commitRole
  dsimp only
  repeat' split
  all_goals exact ⟨rfl, rfl, rfl, rfl, rfl⟩

theorem commitRoles_alike (now : Int) : Alike m (m.commitRoles now) := by
  refine ⟨fun k => ?_, rfl, rfl⟩
  show Option.Rel SameHost _ ((m.nodes.mapVal (commitRole · now)).lookup k)
  rw [KeyedMap.lookup_mapVal]
  cases m.nodes.lookup k with
  | none => exact Option.Rel.none
  | some n => exact Option.Rel.some (commitRole_sameHost n now)

end Leaves

/-! ## Steps at different times -/

section Steps

variable {m m' : Manager}

theorem SameHost.ite (b : Bool) {x x' y y' : Node} (hx : SameHost x x') (hy : SameHost y y') :
    SameHost (if b then x else y) (if b then x' else y') := by
  cases b with
  | false => exact hy
  | true => exact hx

theorem absorbNode_sameHost {n n' o o' : Node} (hn : SameHost n n') (ho : SameHost o o') :
    SameHost (absorbNode n o) (absorbNode n' o') where
  ip := hn.ip
  hostname := hn.hostname
  ips := by
    unfold absorbNode
    rw [hn.ips, ho.ips]
  packetCount := by
    unfold absorbNode
    rw [hn.packetCount, ho.packetCount]
  isGroup := hn.isGroup

variable [RuneCase]

theorem SameHost.rebuild {n n' : Node} (h : SameHost n n') :
    SameHost (rebuildSearchCorpusLocked n) (rebuildSearchCorpusLocked n') :=
  ⟨h.ip, h.hostname, h.ips, h.packetCount, h.isGroup⟩

theorem mergedNode_alike (newID hostname : String) {x x' y y' : Option Node}
    (hx : Option.Rel SameHost x x') (hy : Option.Rel SameHost y y') :
    Option.Rel SameHost (mergedNode newID hostname x y) (mergedNode newID hostname x' y') := by
  cases hx with
  | none =>
    cases hy with
    | none => exact Option.Rel.none
    | some ho => exact Option.Rel.some ⟨rfl, rfl, ho.ips, ho.packetCount, ho.isGroup⟩
  | some hn =>
    cases hy with
    | none => exact Option.Rel.some hn.rebuild
    | some ho => exact Option.Rel.some (absorbNode_sameHost hn ho).rebuild

theorem Alike.mergeNodeInto (h : Alike m m') {newID oldID : String} (hne : oldID ≠ newID)
    (hostname : String) :
    Alike (m.mergeNodeInto newID oldID hostname) (m'.mergeNodeInto newID oldID hostname) where
  nodes k := by
    rw [mergeNodeInto_nodes hne, mergeNodeInto_nodes hne]
    by_cases hold : k = oldID
    · rw [if_pos hold, if_pos hold]
      exact Option.Rel.none
    rw [if_neg hold, if_neg hold]
    by_cases hnew : k = newID
    · rw [if_pos hnew, if_pos hnew]
      exact mergedNode_alike newID hostname (h.nodes newID) (h.nodes oldID)
    · rw [if_neg hnew, if_neg hnew]
      exact h.nodes k
  ipTo := by
    show m'.ipToNodeID.mapVal _ = m.ipToNodeID.mapVal _
    rw [h.ipTo]
  names := h.names

omit [RuneCase] in
theorem Alike.claimHostname (h : Alike m m') (ip hostname : String) :
    Alike ({ m with dirty := true }.claimHostname ip hostname)
      ({ m' with dirty := true }.claimHostname ip hostname) := by
  have hl : m'.hostnameToNodeID.lookup hostname = m.hostnameToNodeID.lookup hostname := by
    rw [h.names]
  unfold Manager.claimHostname
  dsimp only
  rw [hl]
  split
  · refine ⟨h.nodes, h.ipTo, ?_⟩
    show m'.hostnameToNodeID.insert hostname hostname = m.hostnameToNodeID.insert hostname hostname
    rw [h.names]
  · exact ⟨h.nodes, h.ipTo, h.names⟩

theorem Alike.mergePrevious (h : Alike m m') (ip hostname nodeID : String) :
    Alike (m.mergePrevious ip hostname nodeID) (m'.mergePrevious ip hostname nodeID) := by
  have hid : (m'.ipToNodeID.lookup ip).getD "" = (m.ipToNodeID.lookup ip).getD "" := by
    rw [h.ipTo]
  unfold Manager.mergePrevious
  dsimp only
  rw [hid]
  by_cases hold : (m.ipToNodeID.lookup ip).getD "" ≠ ""
      ∧ (m.ipToNodeID.lookup ip).getD "" ≠ nodeID
  · rw [if_pos hold, if_pos hold]
    exact (h.claimHostname ip hostname).mergeNodeInto hold.2 hostname
  · rw [if_neg hold, if_neg hold]
    exact h.claimHostname ip hostname

omit [RuneCase] in
theorem SameHost.takesName {n n' : Node} (h : SameHost n n') (ip hostname : String) :
    Manager.takesName n' ip hostname = Manager.takesName n ip hostname := by
  unfold Manager.takesName
  rw [h.hostname, h.ip]

/-- The update of a node, one assignment after the other. -/
theorem SameHost.seeNode (h : Alike m m') {n n' : Node} (hn : SameHost n n')
    (nodeID ip hostname : String) (bytes : Nat) (now now' : Int) (isGroup : Bool) :
    SameHost (m.seeNode n nodeID ip hostname bytes now isGroup)
      (m'.seeNode n' nodeID ip hostname bytes now' isGroup) := by
  have happ : m'.appendsIP nodeID ip = m.appendsIP nodeID ip := by
    unfold appendsIP
    rw [h.ipTo]
  have hcount : SameHost
      { n with packetCount := n.packetCount + 1, byteCount := n.byteCount + bytes, lastSeen := now }
      { n' with
        packetCount := n'.packetCount + 1, byteCount := n'.byteCount + bytes, lastSeen := now' } :=
    ⟨hn.ip, hn.hostname, hn.ips, congrArg (· + 1) hn.packetCount, hn.isGroup⟩
  have happend : ∀ {a a' : Node}, SameHost a a' →
      SameHost { a with ips := a.ips ++ [ip] } { a' with ips := a'.ips ++ [ip] } :=
    fun ha => ⟨ha.ip, ha.hostname, congrArg (· ++ [ip]) ha.ips, ha.packetCount, ha.isGroup⟩
  have hname : ∀ {a a' : Node}, SameHost a a' →
      SameHost { a with hostname := hostname } { a' with hostname := hostname } :=
    fun ha => ⟨ha.ip, rfl, ha.ips, ha.packetCount, ha.isGroup⟩
  have hgroup : ∀ {a a' : Node}, SameHost a a' →
      SameHost { a with isGroup := true } { a' with isGroup := true } :=
    fun ha => ⟨ha.ip, ha.hostname, ha.ips, ha.packetCount, rfl⟩
  have hip := SameHost.ite (m.appendsIP nodeID ip) (happend hcount) hcount
  have hnamed := fun b => SameHost.ite b (hname hip) hip
  have hbuilt := fun b c => SameHost.ite c (hnamed b).rebuild (hnamed b)
  unfold Manager.seeNode
  dsimp only
  rw [happ, hip.takesName]
  exact SameHost.ite isGroup (hgroup (hbuilt _ _)) (hbuilt _ _)

theorem Alike.countEndpoint (h : Alike m m') (nodeID ip hostname : String) (bytes : Nat)
    (now now' : Int) :
    Alike (m.countEndpoint nodeID ip hostname bytes now)
      (m'.countEndpoint nodeID ip hostname bytes now') := by
  have hip : Alike { m with ipToNodeID := m.ipToNodeID.insert ip nodeID }
      { m' with ipToNodeID := m'.ipToNodeID.insert ip nodeID } :=
    ⟨h.nodes, by rw [h.ipTo], h.names⟩
  unfold Manager.countEndpoint
  dsimp only
  have hr := h.nodes nodeID
  revert hr
  generalize hx : m.nodes.lookup nodeID = x, hx' : m'.nodes.lookup nodeID = x'
  intro hr
  cases hr with
  | none => exact ⟨h.nodes.insert ⟨rfl, rfl, rfl, rfl, rfl⟩, hip.ipTo, h.names⟩
  | some hn =>
    exact ⟨h.nodes.insert (SameHost.seeNode hip hn nodeID ip hostname bytes now now' _), hip.ipTo,
      h.names⟩

theorem Alike.addOrUpdateNode (h : Alike m m') (ip hostname : String) (bytes : Nat)
    (now now' : Int) :
    Alike (m.addOrUpdateNodeLocked ip hostname bytes now)
      (m'.addOrUpdateNodeLocked ip hostname bytes now') := by
  have hid : m'.nodeIDFor ip (nodeHostname ip hostname)
      = m.nodeIDFor ip (nodeHostname ip hostname) := by
    unfold nodeIDFor
    rw [h.names]
  unfold addOrUpdateNodeLocked
  dsimp only
  rw [hid]
  exact (h.mergePrevious ..).countEndpoint ..

theorem Alike.addReplayed (h : Alike m m') (pkt : PacketInfo) (srcHostname dstHostname : String)
    (clock clock' : IngestClock) :
    Alike ((m.addReplayed pkt srcHostname dstHostname clock).addPacket pkt)
      ((m'.addReplayed pkt srcHostname dstHostname clock').addPacket pkt) := by
  unfold Manager.addReplayed
  dsimp only
  have hnodes := (h.addOrUpdateNode pkt.srcIP srcHostname pkt.length clock.srcSeen
    clock'.srcSeen).addOrUpdateNode pkt.dstIP dstHostname pkt.length clock.dstSeen clock'.dstSeen
  refine ((addOrUpdateEdgeLocked_alike ..).trans (addPacket_alike pkt)).symm.trans
    (hnodes.trans ?_)
  exact (addOrUpdateEdgeLocked_alike ..).trans (addPacket_alike pkt)

end Steps

/-! ## Names -/

/-- The hostname an address resolves to. -/
def hostnameOf (lookupAddr : String → List String) (ip : String) : String :=
  match lookupAddr ip with
  | [] => ip
  | name :: _ => trimSuffix name "."

/-- The cache holds what a lookup would answer. -/
def SoundCache (lookupAddr : String → List String) (cache : DNSCache) : Prop :=
  ∀ ip hostname, cache.lookup ip = some hostname → hostname = hostnameOf lookupAddr ip

variable {lookupAddr : String → List String}

theorem soundCache_empty : SoundCache lookupAddr ∅ := by
  intro ip hostname hl
  rw [AList.lookup_empty] at hl
  cases hl

theorem SoundCache.insert {cache : DNSCache} (h : SoundCache lookupAddr cache) (ip : String) :
    SoundCache lookupAddr (cache.insert ip (hostnameOf lookupAddr ip)) := by
  intro a hostname hl
  rw [KeyedMap.lookup_insert_eq] at hl
  by_cases ha : a = ip
  · rw [if_pos ha] at hl
    rw [ha]
    exact (Option.some.inj hl).symm
  · rw [if_neg ha] at hl
    exact h a hostname hl

theorem resolveIPSync_sound {cache : DNSCache} (h : SoundCache lookupAddr cache) (ip : String) :
    (resolveIPSync lookupAddr ip cache).1 = hostnameOf lookupAddr ip
      ∧ SoundCache lookupAddr (resolveIPSync lookupAddr ip cache).2 := by
  have hinsert := h.insert ip
  unfold resolveIPSync
  unfold hostnameOf at hinsert ⊢
  cases hl : cache.lookup ip with
  | some hostname => exact ⟨h ip hostname hl, h⟩
  | none =>
    cases hnames : lookupAddr ip with
    | nil =>
      rw [hnames] at hinsert
      exact ⟨rfl, hinsert⟩
    | cons name rest =>
      rw [hnames] at hinsert
      exact ⟨rfl, hinsert⟩

theorem endpointName_sound {cache : DNSCache} (h : SoundCache lookupAddr cache) (name ip : String) :
    (endpointName lookupAddr name ip cache).1
        = (if name = "" then hostnameOf lookupAddr ip else name)
      ∧ SoundCache lookupAddr (endpointName lookupAddr name ip cache).2 := by
  unfold endpointName
  by_cases hname : name = ""
  · rw [if_pos hname, if_pos hname]
    exact resolveIPSync_sound h ip
  · rw [if_neg hname, if_neg hname]
    exact ⟨rfl, h⟩

/-! ## Builds -/

section Builds

variable [RuneCase]

/-- What two builds of the same packets keep: the same hosts, and sound caches. -/
structure BuiltAlike (lookupAddr : String → List String) (s s' : Manager × DNSCache) : Prop where
  graph : Alike s.1 s'.1
  cache : SoundCache lookupAddr s.2
  cache' : SoundCache lookupAddr s'.2

theorem BuiltAlike.packet {s s' : Manager × DNSCache} (h : BuiltAlike lookupAddr s s')
    (pkt : PacketInfo) (clock clock' : IngestClock) :
    BuiltAlike lookupAddr (replayPacket lookupAddr s (pkt, clock))
      (replayPacket lookupAddr s' (pkt, clock')) := by
  obtain ⟨hsrc, hcache⟩ := endpointName_sound h.cache pkt.srcName pkt.srcIP
  obtain ⟨hsrc', hcache'⟩ := endpointName_sound h.cache' pkt.srcName pkt.srcIP
  obtain ⟨hdst, hlast⟩ := endpointName_sound hcache pkt.dstName pkt.dstIP
  obtain ⟨hdst', hlast'⟩ := endpointName_sound hcache' pkt.dstName pkt.dstIP
  refine ⟨?_, hlast, hlast'⟩
  unfold replayPacket
  dsimp only
  rw [hsrc, hsrc', hdst, hdst']
  exact h.graph.addReplayed ..

theorem BuiltAlike.foldl {s s' : Manager × DNSCache} (h : BuiltAlike lookupAddr s s')
    {packets packets' : List (PacketInfo × IngestClock)}
    (hp : packets.map Prod.fst = packets'.map Prod.fst) :
    BuiltAlike lookupAddr (packets.foldl (replayPacket lookupAddr) s)
      (packets'.foldl (replayPacket lookupAddr) s') := by
  induction packets generalizing packets' s s' with
  | nil =>
    obtain rfl := List.map_eq_nil_iff.mp hp.symm
    exact h
  | cons p packets ih =>
    obtain ⟨p', rest, rfl, hfst, hrest⟩ := List.map_eq_cons_iff.mp hp.symm
    obtain ⟨pkt, clock⟩ := p
    obtain ⟨pkt', clock'⟩ := p'
    obtain rfl : pkt' = pkt := hfst
    exact ih (h.packet pkt' clock clock') hrest.symm

end Builds

/-! ## Snapshots -/

/-- A node with nothing but what a view selects it by. -/
def hostOf (n : Node) : Node where
  ip := n.ip
  hostname := ""
  ips := n.ips
  packetCount := n.packetCount
  byteCount := 0
  lastSeen := 0
  isGroup := n.isGroup

theorem SameHost.hostOf_eq {n n' : Node} (h : SameHost n n') : hostOf n' = hostOf n := by
  unfold hostOf
  rw [h.ip, h.ips, h.packetCount, h.isGroup]

/-- A snapshot lists the values of the map. -/
theorem nodes_getSnapshot_perm (go : Runtime) (m : Manager) {β : Type} (f : Node → β) :
    ((m.getSnapshot go).nodes.map f).Perm ((KeyedMap.mapVal f m.nodes).entries.map Sigma.snd) := by
  have hperm := (go.rangeOf_perm m.nodes).map fun e => f e.2
  have hleft : (m.getSnapshot go).nodes.map f = (go.rangeOf m.nodes).map fun e => f e.2 :=
    List.map_map
  have hright : (KeyedMap.mapVal f m.nodes).entries.map Sigma.snd
      = m.nodes.entries.map fun e => f e.2 := List.map_map
  rw [hleft, hright]
  exact hperm

/-- Graphs with the same hosts have snapshots with the same hosts, in any order. -/
theorem Alike.snapshot {m m' : Manager} (h : Alike m m') (go go' : Runtime) :
    ((m.getSnapshot go).nodes.map hostOf).Perm ((m'.getSnapshot go').nodes.map hostOf) := by
  have hlookup : ∀ k, (KeyedMap.mapVal hostOf m.nodes).lookup k
      = (KeyedMap.mapVal hostOf m'.nodes).lookup k := by
    intro k
    rw [KeyedMap.lookup_mapVal, KeyedMap.lookup_mapVal]
    have hr := h.nodes k
    revert hr
    generalize m.nodes.lookup k = x, m'.nodes.lookup k = x'
    intro hr
    cases hr with
    | none => rfl
    | some hn => exact congrArg some hn.hostOf_eq.symm
  have hentries : (KeyedMap.mapVal hostOf m.nodes).entries.Perm
      (KeyedMap.mapVal hostOf m'.nodes).entries := by
    refine List.lookup_ext (AList.nodupKeys _) (AList.nodupKeys _) fun k x => ?_
    exact Iff.of_eq (congrArg (x ∈ ·) (hlookup k))
  refine (nodes_getSnapshot_perm go m hostOf).trans ((hentries.map Sigma.snd).trans ?_)
  exact (nodes_getSnapshot_perm go' m' hostOf).symm

/-! ## The hosts of some packets -/

section Hosts

variable [RuneCase] (lookupAddr)

/-- The nodes of the graph of some packets. -/
def replayed (packets : List PacketInfo) : List Node :=
  (buildSnapshotFromPackets .stable lookupAddr 0 (packets.map fun pkt => (pkt, {})) ∅).1.nodes

variable {lookupAddr}

/-- Whatever the clock, the cache and the order of the maps, a build finds the same hosts. -/
theorem build_hosts (go : Runtime) (now : Int) (packets : List (PacketInfo × IngestClock))
    {cache : DNSCache} (hcache : SoundCache lookupAddr cache) :
    ((buildSnapshotFromPackets go lookupAddr now packets cache).1.nodes.map hostOf).Perm
      ((replayed lookupAddr (packets.map Prod.fst)).map hostOf) := by
  have hstart : BuiltAlike lookupAddr (newManager, cache) (newManager, ∅) :=
    ⟨.of_nodes_eq rfl rfl rfl, hcache, soundCache_empty⟩
  have hfst : packets.map Prod.fst
      = ((packets.map Prod.fst).map fun pkt => (pkt, ({} : IngestClock))).map Prod.fst := by
    rw [List.map_map]
    exact (List.map_id _).symm
  have hbuilt := (hstart.foldl hfst).graph
  exact ((commitRoles_alike now).symm.trans (hbuilt.trans (commitRoles_alike 0))).snapshot go .stable

end Hosts

end Etherchimp
