import Etherchimp.Capture.Decode
import Etherchimp.Lib.Cut
import Etherchimp.Proof.ViewHosts
import Etherchimp.Proof.ViewOrder
import Etherchimp.Proof.ReplayFolds

/-!
# Who has a place in a replay

A session lays out the view of the whole capture and every offset is shown with the
positions found there. A node of an offset then has a position only if the view of the
whole capture shows it too, under the same id. Both views show the busiest entries of
their hosts, so this is a matter of the packets: whoever leads at the offset must still
lead, by that name, at the end.

That fails of a host that is first seen without a name and later with one, of hosts that
are folded into a subnet by the end, and of a host that the end has no room for.
-/

namespace Etherchimp

open Manager

/-! ## The busiest entries -/

/-- More packets first, then the smaller id. -/
def busierHost (a b : Node) : Bool :=
  if a.packetCount ≠ b.packetCount then b.packetCount < a.packetCount else a.ip < b.ip

/-- A node of this id has fewer than `showAtMost` busier ones. -/
def Leading (nodes : List Node) (id : String) : Prop :=
  ∃ n ∈ nodes, n.ip = id ∧ nodes.countP (fun m => busierHost m n) < showAtMost

instance decidableLeading (nodes : List Node) (id : String) : Decidable (Leading nodes id) :=
  inferInstanceAs (Decidable (∃ n ∈ nodes, _))

theorem byCount_busierHost : ByCount busierHost Node.packetCount Node.ip where
  iff a b := by
    unfold busierHost
    by_cases hk : a.packetCount = b.packetCount
    · simp [hk]
    · simp [hk]

/-- Among few nodes all lead. -/
theorem leading_few {nodes : List Node} (h : nodes.length ≤ showAtMost) (id : String) :
    Leading nodes id ↔ id ∈ nodes.map Node.ip := by
  rw [List.mem_map]
  constructor
  · rintro ⟨n, hn, hid, -⟩
    exact ⟨n, hn, hid⟩
  · rintro ⟨n, hn, hid⟩
    refine ⟨n, hn, hid, Nat.lt_of_lt_of_le ?_ h⟩
    have hirr := byCount_busierHost.preorders.irrefl n
    refine lt_of_le_of_ne List.countP_le_length fun hall => ?_
    have := List.countP_eq_length.mp hall n hn
    rw [hirr] at this
    exact Bool.false_ne_true this

theorem leading_hostOf (nodes : List Node) (id : String) :
    Leading (nodes.map hostOf) id ↔ Leading nodes id := by
  have hcount : ∀ n, (nodes.map hostOf).countP (fun m => busierHost m (hostOf n))
      = nodes.countP fun m => busierHost m n := by
    intro n
    rw [List.countP_map]
    rfl
  unfold Leading
  constructor
  · rintro ⟨n', hn', hid, hlt⟩
    obtain ⟨n, hn, rfl⟩ := List.mem_map.mp hn'
    exact ⟨n, hn, hid, hcount n ▸ hlt⟩
  · rintro ⟨n, hn, hid, hlt⟩
    exact ⟨hostOf n, List.mem_map_of_mem hn, hid, (hcount n).symm ▸ hlt⟩

/-- Who leads depends on the hosts alone. -/
theorem leading_perm {nodes nodes' : List Node}
    (h : (nodes.map hostOf).Perm (nodes'.map hostOf)) (id : String) :
    Leading nodes id ↔ Leading nodes' id := by
  rw [← leading_hostOf nodes, ← leading_hostOf nodes']
  unfold Leading
  refine exists_congr fun n => and_congr h.mem_iff (and_congr Iff.rfl ?_)
  rw [h.countP_eq]

/-- While nothing is folded or cut, leading to the end is keeping one's id. -/
theorem leaders_stay_few {nodes nodes' : List Node} (h : nodes.length ≤ foldAbove)
    (h' : nodes'.length ≤ foldAbove) :
    (∀ id, Leading (entries nodes) id → Leading (entries nodes') id)
      ↔ ∀ id ∈ nodes.map Node.ip, id ∈ nodes'.map Node.ip := by
  have hcap : foldAbove ≤ showAtMost := by decide
  rw [entries_few h, entries_few h']
  refine forall_congr' fun id => ?_
  rw [leading_few (h.trans hcap), leading_few (h'.trans hcap)]

/-! ## The ids of a view -/

section View

variable {F : Type} [FloatMath F]

omit [FloatMath F] in
/-- What a replay's view folds. -/
theorem folding_entries (go : Runtime) (raw : RawSnapshot) (le : LayoutEngine F) :
    ((((replayInput le).folding go raw replayConfig).kept).map hostOf).Perm
      ((entries raw.nodes).map hostOf) := by
  have hgroup : isGroupNode (replayInput le).overrides = Node.isGroup := by
    funext n
    exact Bool.or_false _
  have hstate : (replayInput le).state = some {} := rfl
  unfold ViewInput.folding foldedView
  dsimp only
  rw [hgroup, hstate, survivors_replay, aggActive_replay]
  by_cases hmany : foldAbove < raw.nodes.length
  · rw [if_pos (decide_eq_true hmany)]
    exact aggregate_entries go (fun _ => rfl) hmany
  · rw [if_neg (by rw [decide_eq_true_eq]; exact hmany), entries_few (Nat.not_lt.mp hmany)]

/-- Nothing is isolated or protected in a replay, so the cut is plain. -/
theorem selectNodes_replay (go : Runtime) (s : Folding) :
    selectNodes F go replayConfig (some {}) s = (go.sortSlice busierHost s.kept).take showAtMost := by
  have hless : busierNode F replayConfig (some {}) s = busierHost := by
    funext a b
    unfold busierNode busierHost
    have hkey : ∀ n, sortKey F replayConfig (some {}) s n = (n.packetCount : Int) := fun _ => rfl
    simp only [hkey, ne_eq, Int.natCast_inj, Int.ofNat_lt]
  have hcap : replayConfig.nodeCap = showAtMost := by decide
  have hprotect : ∀ l : List Node, l.filter (isProtected replayConfig s) = [] := by
    intro l
    refine List.filter_eq_nil_iff.mpr fun n _ => ?_
    exact Bool.false_ne_true
  have hisolate : isolate replayConfig s = s.kept := rfl
  unfold selectNodes cutNodes
  dsimp only
  rw [hless, hisolate, hcap, hprotect]
  by_cases hfew : (go.sortSlice busierHost s.kept).length ≤ showAtMost
  · rw [if_pos hfew, List.take_of_length_le hfew]
  · rw [if_neg hfew, if_pos (.inl rfl)]

variable [RuneCase]

/-- **A replay's view shows the leading entries.** -/
theorem mem_replayView (go : Runtime) (raw : RawSnapshot) (le : LayoutEngine F) (id : String) :
    id ∈ (buildView go raw replayConfig (replayInput le)).1.nodes.map ViewNode.id
      ↔ Leading (entries raw.nodes) id := by
  rw [buildView_ids, ← leading_perm (folding_entries go raw le)]
  unfold ViewInput.shownNodes
  rw [show (replayInput le).state = some {} from rfl, selectNodes_replay]
  exact Cut.mem_take_iff byCount_busierHost (go.sortSlice_perm _ _)
    (go.sortSlice_sorted byCount_busierHost.preorders _)

omit [FloatMath F] [RuneCase] in
/-- A session has a position for every node of its view. -/
theorem mem_sessionPositions (view : ViewSnapshot F) (id : String) :
    id ∈ sessionPositions view ↔ id ∈ view.nodes.map ViewNode.id := by
  unfold sessionPositions
  induction view.nodes using List.reverseRecOn with
  | nil => simp
  | append_singleton nodes n ih =>
    rw [List.foldl_concat, AList.mem_insert, ih, List.map_append, List.mem_append,
      List.map_singleton, List.mem_singleton, or_comm]

/-- Where a session's positions place a node: the origin, if it has none for it. -/
def placeOf (positions : KeyedMap String (Vec F)) (id : String) : Vec F :=
  (positions.lookup id).getD Vec.zero

/-- An offset is drawn at the positions handed in. -/
theorem offsetView_places (go : Runtime) (rng : Nat → F) (positions : KeyedMap String (Vec F))
    (raw : RawSnapshot) : ∀ v ∈ (offsetView go rng positions raw).nodes,
      v.x = FloatMath.roundTo (placeOf positions v.id).x
        ∧ v.y = FloatMath.roundTo (placeOf positions v.id).y := by
  intro v hv
  have hfrozen : ∀ args : RawSnapshot, ∀ a, LayoutEngine.step go args ["force"]
      ((newLayoutEngine rng).seedPositions "force" positions) a
        = (newLayoutEngine rng).seedPositions "force" positions := fun _ _ => rfl
  unfold offsetView buildView replayInput at hv
  dsimp only [Option.map_some] at hv
  rw [show replayConfig.layoutMode = "force" from rfl, hfrozen] at hv
  obtain ⟨n, -, rfl⟩ := List.mem_map.mp hv
  exact ⟨rfl, rfl⟩

end View

/-! ## Sessions -/

section Sessions

variable {F : Type} [FloatMath F] [RuneCase] {lookupAddr : String → List String}

/-- The packets of a build. -/
def ReplayRequest.stream (r : ReplayRequest F) : List PacketInfo := r.packets.map Prod.fst

/-- Every build leaves what a lookup would answer. -/
theorem SoundCache.build {cache : DNSCache} (h : SoundCache lookupAddr cache) (go : Runtime)
    (now : Int) (packets : List (PacketInfo × IngestClock)) :
    SoundCache lookupAddr (buildSnapshotFromPackets go lookupAddr now packets cache).2 := by
  have hstart : BuiltAlike lookupAddr (newManager, cache) (newManager, cache) :=
    ⟨.of_nodes_eq rfl rfl rfl, h, h⟩
  exact (hstart.foldl (rfl : packets.map Prod.fst = packets.map Prod.fst)).cache

/-- The session after some requests. -/
def afterRequests (lookupAddr : String → List String) (session : ReplayScene F)
    (earlier : List (ReplayRequest F)) : ReplayScene F :=
  earlier.foldl (fun session r => (handleReplayPcap lookupAddr session r).2) session

/-- Requests leave the positions alone and the cache sound. -/
theorem afterRequests_session {session : ReplayScene F} (h : SoundCache lookupAddr session.dnsCache)
    (earlier : List (ReplayRequest F)) :
    (afterRequests lookupAddr session earlier).positions = session.positions
      ∧ SoundCache lookupAddr (afterRequests lookupAddr session earlier).dnsCache := by
  unfold afterRequests
  induction earlier generalizing session with
  | nil => exact ⟨rfl, h⟩
  | cons r earlier ih =>
    have hserved : SoundCache lookupAddr (handleReplayPcap lookupAddr session r).2.dnsCache :=
      h.build r.go r.now r.packets
    exact ih hserved

/-- The positions of a session are those of the leading entries of its capture. -/
theorem mem_replaySession (full : ReplayRequest F) (id : String) :
    id ∈ (replaySessionFor lookupAddr full).positions
      ↔ Leading (entries (replayed lookupAddr full.stream)) id := by
  have hempty : SoundCache lookupAddr ∅ := soundCache_empty
  have hhosts := build_hosts full.go full.now full.packets hempty
  show id ∈ sessionPositions _ ↔ _
  rw [mem_sessionPositions, convergeReplayView, mem_replayView]
  exact leading_perm (entries_perm hhosts) id

/-- A request is shown the leading entries of its packets. -/
theorem mem_handleReplay {session : ReplayScene F} (h : SoundCache lookupAddr session.dnsCache)
    (r : ReplayRequest F) (id : String) :
    id ∈ (handleReplayPcap lookupAddr session r).1.nodes.map ViewNode.id
      ↔ Leading (entries (replayed lookupAddr r.stream)) id := by
  have hhosts := build_hosts r.go r.now r.packets h
  show id ∈ (offsetView _ _ _ _).nodes.map ViewNode.id ↔ _
  rw [offsetView, mem_replayView]
  exact leading_perm (entries_perm hhosts) id

/--
**An offset is placed exactly when its leading entries still lead at the end.** The
capture is `full`, the request is for its first `n` packets, and any others came before.
A node without a position is drawn at the origin.
-/
theorem offset_placed_iff (full : ReplayRequest F) (earlier : List (ReplayRequest F))
    (r : ReplayRequest F) (n : Nat) (hr : r.stream = full.stream.take n) :
    let session := afterRequests lookupAddr (replaySessionFor lookupAddr full) earlier
    let view := (handleReplayPcap lookupAddr session r).1
    ((∀ v ∈ view.nodes, v.id ∈ session.positions)
        ↔ ∀ id, Leading (entries (replayed lookupAddr (full.stream.take n))) id →
            Leading (entries (replayed lookupAddr full.stream)) id)
      ∧ ∀ v ∈ view.nodes, v.id ∉ session.positions →
        v.x = FloatMath.roundTo Vec.zero.x ∧ v.y = FloatMath.roundTo Vec.zero.y := by
  have hsound : SoundCache lookupAddr (replaySessionFor lookupAddr full).dnsCache :=
    soundCache_empty.build full.go full.now full.packets
  obtain ⟨hpositions, hcache⟩ := afterRequests_session hsound earlier
  dsimp only
  refine ⟨⟨fun hplaced id hleads => ?_, fun hstay v hv => ?_⟩, fun v hv hmissing => ?_⟩
  · rw [← hr] at hleads
    obtain ⟨v, hv, rfl⟩ := List.mem_map.mp ((mem_handleReplay hcache r id).mpr hleads)
    have hkey := hplaced v hv
    rw [hpositions] at hkey
    exact (mem_replaySession full v.id).mp hkey
  · have hleads := (mem_handleReplay hcache r v.id).mp (List.mem_map_of_mem hv)
    rw [hr] at hleads
    rw [hpositions]
    exact (mem_replaySession full v.id).mpr (hstay v.id hleads)
  · have hplace := offsetView_places _ _ _ _ v hv
    have hnone := AList.lookup_eq_none.mpr hmissing
    unfold placeOf at hplace
    rw [hnone] at hplace
    exact hplace

end Sessions

/-! ## Two captures -/

/-- A build of some packets. -/
def buildOf (packets : List PacketInfo) : ReplayRequest Float where
  go := Runtime.stable
  rng := fun _ => 0
  now := 0
  packets := packets.map fun pkt => (pkt, {})

def noNames : String → List String := fun _ => []

/-- Two hosts ask the same server, one after the other. -/
def twoHostsCapture : List PacketInfo :=
  [{ srcIP := "10.0.0.5", dstIP := "8.8.8.8", protocol := protocolUDP, length := 60 },
    { srcIP := "10.0.0.6", dstIP := "8.8.8.8", protocol := protocolUDP, length := 60 }]

/-- Before the second host speaks, all that is shown has its place. -/
theorem offset_placed_twoHosts :
    let session := afterRequests noNames (replaySessionFor noNames (buildOf twoHostsCapture))
      [buildOf twoHostsCapture]
    let view := (handleReplayPcap noNames session (buildOf (twoHostsCapture.take 1))).1
    ∀ v ∈ view.nodes, v.id ∈ session.positions := by
  refine (offset_placed_iff (buildOf twoHostsCapture) [buildOf twoHostsCapture]
    (buildOf (twoHostsCapture.take 1)) 1 rfl).1.mpr ?_
  refine (leaders_stay_few ?_ ?_).mpr ?_
  · decide +kernel
  · decide +kernel
  · decide +kernel

/-- A switch sends a spanning tree frame, which has no name, and then an LLDP frame with one. -/
def switchCapture : List PacketInfo :=
  [{ srcIP := "00:1b:2c:3d:4e:5f", dstIP := "01:80:c2:00:00:00", protocol := protocolSTP
     length := 60, dstName := "STP group" },
    { srcIP := "00:1b:2c:3d:4e:5f", dstIP := "01:80:c2:00:00:0e", protocol := protocolLLDP
      length := 120, srcName := "core-switch", dstName := "LLDP group", deviceKind := "switch" }]

/-- The session of the capture. -/
def switchSession : ReplayScene Float := replaySessionFor noNames (buildOf switchCapture)

/-- The first frame shows the switch by its address, and the session has placed its name. -/
theorem renamed_switch_unplaced :
    (buildOf (switchCapture.take 1)).stream = (buildOf switchCapture).stream.take 1
      ∧ ∃ v ∈ (handleReplayPcap noNames switchSession (buildOf (switchCapture.take 1))).1.nodes,
        v.id = "00:1b:2c:3d:4e:5f" ∧ v.id ∉ switchSession.positions := by
  refine ⟨rfl, ?_⟩
  have hfirst : Leading (entries (replayed noNames (buildOf (switchCapture.take 1)).stream))
      "00:1b:2c:3d:4e:5f" := by
    decide +kernel
  have hlast : ¬ Leading (entries (replayed noNames (buildOf switchCapture).stream))
      "00:1b:2c:3d:4e:5f" := by
    decide +kernel
  have hsound : SoundCache noNames switchSession.dnsCache :=
    SoundCache.build soundCache_empty Runtime.stable 0 (buildOf switchCapture).packets
  obtain ⟨v, hv, hid⟩ := List.mem_map.mp ((mem_handleReplay hsound _ _).mpr hfirst)
  refine ⟨v, hv, hid, fun hkey => hlast ?_⟩
  rw [hid] at hkey
  exact (mem_replaySession _ _).mp hkey

end Etherchimp
