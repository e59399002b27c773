import Etherchimp.Lib.Paging
import Etherchimp.Lib.Run
import Etherchimp.Proof.PacketRing

/-!
# Polling the packet ring

A client that feeds the returned cursor back reads the matching packets in the
order they came: nothing twice, and a page that is not full ends with all of what
the ring holds.
-/

namespace Etherchimp

namespace PacketStore

/-! ## One poll -/

/-- The number of packets a poll returns at most. -/
def pageLimit (limit : Int) : Nat := if limit ≤ 0 then 200 else limit.toNat

/-- A packet's number, as the cursor is compared with it. -/
def idOf (p : PacketData) : Int := p.id

/-- The scan goes on until the page is full. -/
theorem scan_eq {limit since : Int} {keep : PacketData → Bool} {n : Nat} (hn : limit = n) :
    ∀ {l result : List PacketData} {cursor : Int}, result.length < n →
      scan since limit keep l result cursor
        = (result ++ Paging.page idOf keep since (n - result.length) l,
          Paging.advance idOf cursor (Paging.page idOf keep since (n - result.length) l)) := by
  intro l
  induction l with
  | nil =>
    intro result cursor _
    have hnil : Paging.page idOf keep since (n - result.length) [] = [] := List.take_nil
    rw [scan, hnil, List.append_nil]
    rfl
  | cons p rest ih =>
    intro result cursor hlen
    rw [scan]
    by_cases hskip : (p.id : Int) ≤ since ∨ keep p = false
    · have hbehind : Paging.behind idOf keep since (p :: rest)
          = Paging.behind idOf keep since rest := by
        refine List.filter_cons_of_neg ?_
        rw [Bool.and_eq_true, decide_eq_true_iff, not_and, Bool.not_eq_true]
        intro hlt
        rcases hskip with hle | hk
        · exact absurd hlt (Int.not_lt.mpr hle)
        · exact hk
      rw [if_pos hskip, ih hlen]
      unfold Paging.page
      rw [hbehind]
    · rw [not_or, Int.not_le, Bool.not_eq_false] at hskip
      have hbehind : Paging.behind idOf keep since (p :: rest)
          = p :: Paging.behind idOf keep since rest := by
        refine List.filter_cons_of_pos ?_
        rw [Bool.and_eq_true, decide_eq_true_iff]
        exact hskip
      -- one more packet, and one less to find
      obtain ⟨k, hk⟩ : ∃ k, n - result.length = k + 1 := Nat.exists_eq_add_one.mpr (by omega)
      have hpage : Paging.page idOf keep since (n - result.length) (p :: rest)
          = p :: Paging.page idOf keep since k rest := by
        unfold Paging.page
        rw [hbehind, hk, List.take_succ_cons]
      have hmax : (if cursor < (p.id : Int) then (p.id : Int) else cursor)
          = max cursor (idOf p) := by
        rw [max_def]
        unfold idOf
        split <;> split <;> omega
      rw [if_neg (by rw [not_or, Int.not_le, Bool.not_eq_false]; exact hskip), hpage]
      dsimp only
      rw [hmax]
      by_cases hfull : limit ≤ ((result ++ [p]).length : Int)
      · have hzero : k = 0 := by
          rw [List.length_append, List.length_singleton] at hfull
          omega
        rw [if_pos hfull, hzero]
        have hnil : Paging.page idOf keep since 0 rest = [] := List.take_zero
        rw [hnil]
        rfl
      · rw [List.length_append, List.length_singleton] at hfull
        have hlen' : (result ++ [p]).length < n := by
          rw [List.length_append, List.length_singleton]
          omega
        have hk' : n - (result ++ [p]).length = k := by
          rw [List.length_append, List.length_singleton]
          omega
        rw [if_neg (by rw [List.length_append, List.length_singleton]; exact hfull), ih hlen', hk',
          List.append_assoc]
        rfl

/-- **A poll is a page of the ring.** -/
theorem poll_eq (ps : PacketStore) (keep : PacketData → Bool) (since limit : Int) :
    ps.poll keep since limit
      = (Paging.page idOf keep since (pageLimit limit) ps.getPackets,
        Paging.advance idOf since (Paging.page idOf keep since (pageLimit limit) ps.getPackets)) := by
  show scan since (if limit ≤ 0 then 200 else limit) keep ps.getPackets [] since = _
  by_cases hle : limit ≤ 0
  · have hp : pageLimit limit = 200 := if_pos hle
    rw [if_pos hle, hp]
    exact scan_eq rfl (Nat.zero_lt_succ _)
  · have hp : pageLimit limit = limit.toNat := if_neg hle
    have hpos : (limit.toNat : Int) = limit := Int.toNat_of_nonneg (by omega)
    rw [if_neg hle, hp]
    exact scan_eq hpos.symm (by rw [List.length_nil]; omega)

end PacketStore

/-! ## A client polling the ring -/

/-- The polls a client can make; the sets stay fixed while it pages. -/
inductive PacketQuery where
  | since
  | forIPs (ipSet : String → Bool)
  | between (setA setB : String → Bool)

/-- Whether a packet is one the query is for. -/
def PacketQuery.isFor : PacketQuery → PacketData → Bool
  | .since, _ => true
  | .forIPs ipSet, p => ipSet p.srcIP || ipSet p.dstIP
  | .between setA setB, p => (setA p.srcIP && setB p.dstIP) || (setB p.srcIP && setA p.dstIP)

/-- The call a query makes. -/
def PacketQuery.ask (q : PacketQuery) (ps : PacketStore) (sinceID limit : Int) :
    List PacketData × Int :=
  match q with
  | .since => ps.getPacketsSince sinceID limit
  | .forIPs ipSet => ps.getPacketsForIPs ipSet sinceID limit
  | .between setA setB => ps.getPacketsBetween setA setB sinceID limit

theorem PacketQuery.ask_eq (q : PacketQuery) (ps : PacketStore) (sinceID limit : Int) :
    q.ask ps sinceID limit = ps.poll q.isFor sinceID limit := by
  cases q <;> rfl

/-- A poll for a node is one for its addresses. -/
theorem Manager.getPacketsForNode_eq (m : Manager) (ps : PacketStore) (nodeID : String)
    (sinceID limit : Int) : m.getPacketsForNode ps nodeID sinceID limit
      = (PacketQuery.forIPs (m.nodeIPSet nodeID)).ask ps sinceID limit := rfl

/-- A poll for an edge is one between the addresses of its endpoints. -/
theorem Manager.getPacketsForEdge_eq {m : Manager} {edgeID : String} {edge : Edge}
    (h : m.edges.lookup edgeID = some edge) (ps : PacketStore) (sinceID limit : Int) :
    m.getPacketsForEdge ps edgeID sinceID limit
      = (PacketQuery.between (m.nodeIPSet edge.fromID) (m.nodeIPSet edge.toID)).ask ps sinceID
          limit := by
  unfold Manager.getPacketsForEdge
  rw [h]
  rfl

/-- A packet comes, or the client polls with the cursor it was given last. -/
inductive RingEvent where
  | add (now : Int) (pkt : PacketInfo)
  | poll (limit : Int)

/-- The ring, the client's cursor and everything it was given so far. -/
structure RingClient where
  store : PacketStore
  cursor : Int
  delivered : List PacketData

namespace RingClient

def step (q : PacketQuery) (c : RingClient) : RingEvent → RingClient
  | .add now pkt => { c with store := c.store.addPacket now pkt }
  | .poll limit =>
    let (page, cursor) := q.ask c.store c.cursor limit
    { c with cursor := cursor, delivered := c.delivered ++ page }

/-- A client starting at `cursor` over an empty ring. -/
def start (maxPackets : Nat) (hpos : 0 < maxPackets) (cursor : Int) : RingClient where
  store := newPacketStore maxPackets hpos
  cursor := cursor
  delivered := []

def run (q : PacketQuery) (maxPackets : Nat) (hpos : 0 < maxPackets) (cursor : Int)
    (events : List RingEvent) : RingClient :=
  Run.exec (step q) (start maxPackets hpos cursor) events

open PacketStore (idOf pageLimit)

/-- What the client was given, and what of the ring it has passed. -/
structure Caught (q : PacketQuery) (from_ : Int) (c : RingClient) : Prop where
  ring : ∃ added, c.store.HoldsLast added
  sorted : c.delivered.Pairwise fun a b => idOf a < idOf b
  seen : ∀ p ∈ c.delivered, idOf p ≤ c.cursor
  /-- The cursor is where it started or at a packet that has come. -/
  passed : c.cursor = from_ ∨ c.cursor < c.store.nextID
  complete : ∀ p ∈ c.store.getPackets, q.isFor p = true → from_ < idOf p → idOf p ≤ c.cursor →
    p ∈ c.delivered

theorem Caught.add {q : PacketQuery} {from_ : Int} {c : RingClient} (h : c.Caught q from_)
    (now : Int) (pkt : PacketInfo) : (c.step q (.add now pkt)).Caught q from_ := by
  obtain ⟨added, hring⟩ := h.ring
  refine ⟨⟨_, hring.addPacket now pkt⟩, h.sorted, h.seen, ?_, ?_⟩
  · rcases h.passed with hp | hp
    · exact Or.inl hp
    · right
      show c.cursor < ((c.store.addPacket now pkt).nextID : Int)
      rw [PacketStore.addPacket_nextID]
      omega
  · intro p hp hfor hfrom hle
    have hold : p ∈ c.store.getPackets ∨ p = packetData c.store.nextID now pkt := by
      have hp : p ∈ (c.store.addPacket now pkt).getPackets := hp
      by_cases hroom : c.store.size < c.store.maxPackets
      · rw [c.store.addPacket_of_room now pkt hroom, List.mem_append, List.mem_singleton] at hp
        exact hp
      · rw [c.store.addPacket_of_full now pkt hroom, List.mem_append, List.mem_singleton] at hp
        exact hp.imp_left List.mem_of_mem_tail
    rcases hold with hold | rfl
    · exact h.complete p hold hfor hfrom hle
    · -- the new packet's number is behind the cursor only when that has never moved
      have hid : idOf (packetData c.store.nextID now pkt) = c.store.nextID := rfl
      have hle : idOf (packetData c.store.nextID now pkt) ≤ c.cursor := hle
      rcases h.passed with hp | hp <;> omega

theorem step_poll (q : PacketQuery) (c : RingClient) (limit : Int) :
    let page := Paging.page idOf q.isFor c.cursor (pageLimit limit) c.store.getPackets
    c.step q (.poll limit)
      = { c with
          cursor := Paging.advance idOf c.cursor page
          delivered := c.delivered ++ page } := by
  unfold step
  dsimp only
  rw [q.ask_eq, PacketStore.poll_eq]

theorem Caught.poll {q : PacketQuery} {from_ : Int} {c : RingClient} (h : c.Caught q from_)
    (limit : Int) : (c.step q (.poll limit)).Caught q from_ := by
  obtain ⟨added, hring⟩ := h.ring
  rw [step_poll]
  refine ⟨⟨added, hring⟩, ?_, ?_, ?_, ?_⟩
  · exact Paging.append_sorted h.sorted h.seen (Paging.page_sorted hring.sorted)
      fun p hp => (Paging.mem_page hp).2.1
  · intro p hp
    rcases List.mem_append.mp hp with hp | hp
    · exact le_trans (h.seen p hp) (Paging.le_advance _ _)
    · exact Paging.key_le_advance hp
  · have hcases := @Paging.advance_cases _ idOf c.cursor
      (Paging.page idOf q.isFor c.cursor (pageLimit limit) c.store.getPackets)
    rcases hcases with hc | ⟨p, hp, hc⟩
    · exact h.passed.imp hc.trans hc.trans_lt
    · right
      have hid := hring.id_lt (Paging.mem_page hp).1
      have hkey : idOf p = p.id := rfl
      dsimp only
      omega
  · intro p hp hfor hfrom hle
    by_cases hold : idOf p ≤ c.cursor
    · exact List.mem_append_left _ (h.complete p hp hfor hfrom hold)
    · exact List.mem_append_right _ (Paging.mem_page_of_le_advance hring.sorted
        (Paging.mem_behind.mpr ⟨hp, Int.not_le.mp hold, hfor⟩) hle)

theorem caught_run (q : PacketQuery) (maxPackets : Nat) (hpos : 0 < maxPackets) (cursor : Int)
    (events : List RingEvent) : (run q maxPackets hpos cursor events).Caught q cursor := by
  refine Run.invariant (P := fun c : RingClient => c.Caught q cursor) ?_ (fun c e h _ => ?_)
    (Run.guarded_true _ events)
  · refine ⟨⟨[], PacketStore.holdsLast_new maxPackets hpos⟩, List.Pairwise.nil, ?_, Or.inl rfl, ?_⟩
    · exact fun p hp => absurd hp List.not_mem_nil
    · exact fun p hp => absurd hp List.not_mem_nil
  · cases e with
    | add now pkt => exact h.add now pkt
    | poll limit => exact h.poll limit

end RingClient

/--
**Live polling neither repeats nor skips.** For a ring of any size, any query and
any limits, a client that starts at `from_` and feeds its cursor back is given
packets with increasing numbers, none of them twice; and a poll whose page is not
full leaves no matching packet of the ring behind `from_` undelivered.
-/
theorem ringPolls_exact (q : PacketQuery) (maxPackets : Nat) (hpos : 0 < maxPackets) (from_ : Int)
    (events : List RingEvent) :
    let c := RingClient.run q maxPackets hpos from_ events
    c.delivered.Pairwise (fun a b => a.id < b.id)
    ∧ c.delivered.Nodup
    ∧ ∀ limit, (q.ask c.store c.cursor limit).1.length < PacketStore.pageLimit limit →
        ∀ p ∈ c.store.getPackets, q.isFor p = true → from_ < p.id →
          p ∈ (c.step q (.poll limit)).delivered := by
  have h := RingClient.caught_run q maxPackets hpos from_ events
  have hids : (RingClient.run q maxPackets hpos from_ events).delivered.Pairwise
      fun a b => a.id < b.id := h.sorted.imp fun {a b} hab => Int.ofNat_lt.mp hab
  refine ⟨hids, hids.imp fun {a b} hab heq => ?_, ?_⟩
  · exact absurd (congrArg PacketData.id heq) (Nat.ne_of_lt hab)
  · intro limit hshort p hp hfor hfrom
    generalize RingClient.run q maxPackets hpos from_ events = c at h hshort hp ⊢
    rw [q.ask_eq, PacketStore.poll_eq] at hshort
    rw [RingClient.step_poll, Paging.page_of_length_lt hshort]
    by_cases hold : PacketStore.idOf p ≤ c.cursor
    · exact List.mem_append_left _ (h.complete p hp hfor hfrom hold)
    · exact List.mem_append_right _ (Paging.mem_behind.mpr ⟨hp, Int.not_le.mp hold, hfor⟩)

/-- Four packets through a ring of two, polled after the first and after the last. -/
def overrunEvents : List RingEvent :=
  let pkt : PacketInfo := { srcIP := "10.0.0.1", dstIP := "10.0.0.2", length := 60 }
  [.add 1 pkt, .poll 10, .add 2 pkt, .add 3 pkt, .add 4 pkt, .poll 10]

/--
The second packet is overwritten before the client asks again; what it is given comes once
and in order, and the page after that leaves nothing of the ring behind.
-/
theorem ringPolls_overrun :
    let c := RingClient.run .since 2 (by decide) 0 overrunEvents
    c.delivered.map (·.id) = [1, 3, 4] ∧ c.delivered.Pairwise (fun a b => a.id < b.id)
      ∧ c.delivered.Nodup
      ∧ ∀ p ∈ c.store.getPackets, 0 < p.id → p ∈ (c.step .since (.poll 10)).delivered := by
  have h := ringPolls_exact .since 2 (by decide) 0 overrunEvents
  exact ⟨by decide, h.1, h.2.1, fun p hp hid =>
    h.2.2 10 (by decide) p hp rfl (Int.ofNat_lt.mpr hid)⟩

end Etherchimp
