import Etherchimp.Lib.Paging
import Etherchimp.Lib.Run
import Etherchimp.Server.History

/-!
# Paging through the packet index

A page with rows moves the cursor to its last row, and what follows is behind it.
A page without rows sends the cursor back to 0, which restricts nothing: it is
right only for a client that has not moved yet. So the pages of a run are in
order exactly when every poll behind the start found a row.
-/

namespace Etherchimp

/-- One answered poll: the cursor it was made with and the answer. -/
structure HistoryPoll where
  since : Nat
  answer : PacketsResponse

/-- A row is added to the table, or the client asks for what follows its cursor. -/
inductive HistoryEvent where
  | insert (row : PacketRow)
  | poll

/-- The table, the client's cursor and the polls it has made. -/
structure HistoryClient where
  table : PacketTable
  cursor : Nat
  polls : List HistoryPoll

namespace HistoryClient

def step (q : HistoryQuery) (c : HistoryClient) : HistoryEvent → HistoryClient
  | .insert row => { c with table := c.table.insert row }
  | .poll =>
    let answer := handleHistoryPackets c.table q c.cursor
    { c with cursor := answer.cursor, polls := c.polls ++ [⟨c.cursor, answer⟩] }

/-- A client that has made no poll yet. -/
def start (table : PacketTable) (cursor : Nat) : HistoryClient where
  table := table
  cursor := cursor
  polls := []

def run (q : HistoryQuery) (table : PacketTable) (cursor : Nat) (events : List HistoryEvent) :
    HistoryClient := Run.exec (step q) (start table cursor) events

/-- All rows the client was given, in order. -/
def delivered (polls : List HistoryPoll) : List PacketData := polls.flatMap (·.answer.packets)

/-- Rows come once and in order, and a poll that finds nothing leaves the cursor alone. -/
structure PagedRight (polls : List HistoryPoll) : Prop where
  sorted : (delivered polls).Pairwise fun a b => a.id < b.id
  nodup : (delivered polls).Nodup
  stays : ∀ p ∈ polls, p.answer.packets = [] → p.answer.cursor = p.since

/-- The table holds a row of the query behind the cursor. -/
def HasNext (q : HistoryQuery) (c : HistoryClient) : Prop :=
  ∃ r ∈ c.table.rows,
    PacketTable.selects q.captureID q.fromMicros q.toMicros q.node r = true ∧ c.cursor < r.id

/-- A poll is made at the start, or where the table has a row for it. -/
def Answered (q : HistoryQuery) (c : HistoryClient) : HistoryEvent → Prop
  | .insert _ => True
  | .poll => c.cursor = 0 ∨ HasNext q c

/-! ## One poll -/

def rowID (r : IndexedRow) : Int := r.id

/-- The rows of a poll, as a page of the table. -/
def rowsOf (q : HistoryQuery) (c : HistoryClient) : List IndexedRow :=
  c.table.queryPackets q.captureID q.fromMicros q.toMicros q.node c.cursor q.limit

theorem pageLimit_pos (limit : Int) :
    1 ≤ if limit ≤ 0 ∨ 1000 < limit then 200 else limit.toNat := by
  split <;> omega

/-- **The query is a page of the table**: keys start at 1, so a cursor of 0 is behind none. -/
theorem rowsOf_eq (q : HistoryQuery) (c : HistoryClient) :
    ∃ n, 1 ≤ n ∧ rowsOf q c = Paging.page rowID
      (PacketTable.selects q.captureID q.fromMicros q.toMicros q.node) c.cursor n c.table.rows := by
  refine ⟨_, pageLimit_pos q.limit, ?_⟩
  unfold rowsOf PacketTable.queryPackets Paging.page Paging.behind
  refine congrArg (List.take _) (List.filter_congr fun r hr => ?_)
  have hpos := c.table.positive r hr
  have hcursor : (decide (c.cursor = 0) || decide (c.cursor < r.id))
      = decide ((c.cursor : Int) < rowID r) := by
    unfold rowID
    rw [← Bool.decide_or]
    exact decide_eq_decide.mpr (by omega)
  rw [hcursor, Bool.and_comm]

theorem rowsOf_sorted (q : HistoryQuery) (c : HistoryClient) :
    (rowsOf q c).Pairwise fun a b => a.id < b.id := by
  obtain ⟨n, _, hn⟩ := rowsOf_eq q c
  rw [hn]
  exact c.table.sorted.sublist ((List.take_sublist ..).trans List.filter_sublist)

theorem rowsOf_behind {q : HistoryQuery} {c : HistoryClient} {r : IndexedRow}
    (hr : r ∈ rowsOf q c) : c.cursor < r.id := by
  obtain ⟨n, _, hn⟩ := rowsOf_eq q c
  rw [hn] at hr
  have := (Paging.mem_page hr).2.1
  unfold rowID at this
  omega

/-- A poll finds nothing exactly when the table has no row for it. -/
theorem rowsOf_eq_nil (q : HistoryQuery) (c : HistoryClient) :
    rowsOf q c = [] ↔ ¬ HasNext q c := by
  obtain ⟨n, hpos, hn⟩ := rowsOf_eq q c
  rw [hn]
  unfold Paging.page
  rw [List.take_eq_nil_iff, or_iff_right (by omega), List.eq_nil_iff_forall_not_mem]
  constructor
  · rintro h ⟨r, hr, hsel, hlt⟩
    exact h r (Paging.mem_behind.mpr ⟨hr, Int.ofNat_lt.mpr hlt, hsel⟩)
  · intro h r hr
    obtain ⟨hr, hlt, hsel⟩ := Paging.mem_behind.mp hr
    exact h ⟨r, hr, hsel, Int.ofNat_lt.mp hlt⟩

/-- The cursor of an answer is the key of its last row, and 0 without rows. -/
theorem foldl_last (rows : List IndexedRow) (x : Nat) :
    rows.foldl (fun _ p => p.id) x = (rows.getLast?.map (·.id)).getD x := by
  induction rows using List.reverseRecOn with
  | nil => rfl
  | append_singleton rows r _ =>
    rw [List.foldl_append, List.getLast?_concat]
    rfl

/-- A page that has rows ends at the new cursor. -/
theorem le_cursor {q : HistoryQuery} {c : HistoryClient} {r : IndexedRow} (hr : r ∈ rowsOf q c) :
    r.id ≤ (handleHistoryPackets c.table q c.cursor).cursor := by
  show r.id ≤ (rowsOf q c).foldl (fun _ p => p.id) 0
  have hs := rowsOf_sorted q c
  rw [foldl_last]
  rcases List.eq_nil_or_concat' (rowsOf q c) with hnil | ⟨front, last, hrows⟩
  · rw [hnil] at hr
    cases hr
  · rw [hrows, List.pairwise_append] at hs
    rw [hrows, List.mem_append, List.mem_singleton] at hr
    rw [hrows, List.getLast?_concat]
    rcases hr with hr | rfl
    · exact Nat.le_of_lt (hs.2.2 r hr last (List.mem_singleton_self _))
    · exact Nat.le_refl _

theorem packets_eq_nil (q : HistoryQuery) (c : HistoryClient) :
    (handleHistoryPackets c.table q c.cursor).packets = [] ↔ rowsOf q c = [] :=
  List.map_eq_nil_iff

theorem cursor_of_nil {q : HistoryQuery} {c : HistoryClient} (h : rowsOf q c = []) :
    (handleHistoryPackets c.table q c.cursor).cursor = 0 := by
  show (rowsOf q c).foldl (fun _ p => p.id) 0 = 0
  rw [h]
  rfl

/-! ## The run -/

/-- What the client was given lies at or before its cursor. -/
def Passed (c : HistoryClient) : Prop :=
  PagedRight c.polls ∧ ∀ p ∈ delivered c.polls, p.id ≤ c.cursor

theorem delivered_concat (polls : List HistoryPoll) (p : HistoryPoll) :
    delivered (polls ++ [p]) = delivered polls ++ p.answer.packets := by
  unfold delivered
  rw [List.flatMap_append, List.flatMap_singleton]

/-- An answered poll goes on where the last one ended. -/
theorem Passed.poll {q : HistoryQuery} {c : HistoryClient} (h : Passed c)
    (hok : Answered q c .poll) : Passed (c.step q .poll) := by
  have hrows : (handleHistoryPackets c.table q c.cursor).packets
      = (rowsOf q c).map storePacketToData := rfl
  have hsorted : (delivered (c.step q .poll).polls).Pairwise fun a b => a.id < b.id := by
    show (delivered (c.polls ++ [_])).Pairwise _
    rw [delivered_concat, hrows, List.pairwise_append]
    refine ⟨h.1.sorted, List.pairwise_map.mpr (rowsOf_sorted q c), fun a ha b hb => ?_⟩
    obtain ⟨r, hr, rfl⟩ := List.mem_map.mp hb
    exact Nat.lt_of_le_of_lt (h.2 a ha) (rowsOf_behind hr)
  refine ⟨⟨hsorted, ?_, ?_⟩, ?_⟩
  · refine hsorted.imp fun {a b} hab => ?_
    rintro rfl
    exact Nat.lt_irrefl _ hab
  · intro p hp hnil
    rcases List.mem_append.mp hp with hp | hp
    · exact h.1.stays p hp hnil
    · rw [List.mem_singleton.mp hp] at hnil ⊢
      have hempty := (packets_eq_nil q c).mp hnil
      rcases hok with hzero | hnext
      · exact (cursor_of_nil hempty).trans hzero.symm
      · exact absurd hnext ((rowsOf_eq_nil q c).mp hempty)
  · intro p hp
    have hp : p ∈ delivered (c.polls ++ [⟨c.cursor, handleHistoryPackets c.table q c.cursor⟩]) := hp
    rw [delivered_concat, hrows, List.mem_append] at hp
    rcases hp with hp | hp
    · by_cases hempty : rowsOf q c = []
      · -- nothing was found, so the client has not moved yet
        have hzero : c.cursor = 0 := hok.resolve_right ((rowsOf_eq_nil q c).mp hempty)
        have := h.2 p hp
        omega
      · obtain ⟨r, hr⟩ := List.exists_mem_of_ne_nil _ hempty
        have hold := h.2 p hp
        have hbehind := rowsOf_behind hr
        have hle := le_cursor hr
        show p.id ≤ (handleHistoryPackets c.table q c.cursor).cursor
        omega
    · obtain ⟨r, hr, rfl⟩ := List.mem_map.mp hp
      exact le_cursor hr

theorem passed_run (q : HistoryQuery) (table : PacketTable) (cursor : Nat)
    {events : List HistoryEvent}
    (hg : Run.Guarded (step q) (Answered q) (start table cursor) events) :
    Passed (run q table cursor events) := by
  have h0 : Passed (start table cursor) :=
    ⟨⟨List.Pairwise.nil, List.Pairwise.nil, fun p hp => absurd hp List.not_mem_nil⟩,
      fun p hp => absurd hp List.not_mem_nil⟩
  refine Run.invariant h0 (fun c e h hok => ?_) hg
  cases e with
  | insert row => exact h
  | poll => exact h.poll hok

/-- A poll stays on the record. -/
theorem polls_step (q : HistoryQuery) (c : HistoryClient) (e : HistoryEvent) :
    c.polls <+: (c.step q e).polls := by
  cases e with
  | insert row => exact List.prefix_refl _
  | poll => exact List.prefix_append _ _

theorem PagedRight.take {polls polls' : List HistoryPoll} (h : PagedRight polls')
    (hp : polls <+: polls') : PagedRight polls := by
  obtain ⟨more, rfl⟩ := hp
  have hd : delivered (polls ++ more) = delivered polls ++ delivered more := List.flatMap_append
  have hs := h.sorted
  have hn := h.nodup
  rw [hd] at hs hn
  exact ⟨(List.pairwise_append.mp hs).1, (List.nodup_append.mp hn).1,
    fun p hp => h.stays p (List.mem_append_left _ hp)⟩

/-- An unanswered poll changes the cursor though it finds nothing. -/
theorem answered_of_pagedRight {q : HistoryQuery} {c : HistoryClient} {e : HistoryEvent}
    (h : PagedRight (c.step q e).polls) : Answered q c e := by
  cases e with
  | insert row => trivial
  | poll =>
    by_cases hnext : HasNext q c
    · exact Or.inr hnext
    · have hempty := (rowsOf_eq_nil q c).mpr hnext
      have hlast := h.stays ⟨c.cursor, handleHistoryPackets c.table q c.cursor⟩
        (List.mem_append_right _ (List.mem_singleton_self _)) ((packets_eq_nil q c).mpr hempty)
      exact Or.inl (hlast.symm.trans (cursor_of_nil hempty))

theorem guarded_of_pagedRight (q : HistoryQuery) (table : PacketTable) (cursor : Nat)
    (events : List HistoryEvent) (h : PagedRight (run q table cursor events).polls) :
    Run.Guarded (step q) (Answered q) (start table cursor) events := by
  induction events using List.reverseRecOn with
  | nil => trivial
  | append_singleton events e ih =>
    have hrun : run q table cursor (events ++ [e]) = (run q table cursor events).step q e :=
      Run.exec_concat _ events e
    rw [hrun] at h
    exact Run.guarded_append.mpr
      ⟨ih (h.take (polls_step q _ e)), answered_of_pagedRight h, trivial⟩

end HistoryClient

/--
**History paging is right exactly when no poll finds nothing behind a row.** For
any table that only grows, any fixed query and any run of a client that feeds its
cursor back, rows come once and in order and empty pages leave the cursor alone,
if and only if every poll of the run is made with cursor 0 or finds a row.
-/
theorem historyPages_iff (q : HistoryQuery) (table : PacketTable) (cursor : Nat)
    (events : List HistoryEvent) :
    HistoryClient.PagedRight (HistoryClient.run q table cursor events).polls
      ↔ Run.Guarded (HistoryClient.step q) (HistoryClient.Answered q)
          (HistoryClient.start table cursor) events :=
  ⟨HistoryClient.guarded_of_pagedRight q table cursor events,
    fun hg => (HistoryClient.passed_run q table cursor hg).1⟩

/-- A table with one packet of capture 1. -/
def onePacketTable : PacketTable :=
  PacketTable.insert ⟨[], List.Pairwise.nil, fun _ h => absurd h List.not_mem_nil⟩
    { captureID := 1, ts := 0, src := "a", dst := "b", srcPort := 0, dstPort := 0,
      protocol := "TCP", length := 60, vlan := 0, pcapOffset := none }

/-- Three polls deliver the one packet twice, the second of them resetting the cursor. -/
theorem historyPages_onePacket :
    let polls := (HistoryClient.run { captureID := 1 } onePacketTable 0 [.poll, .poll, .poll]).polls
    polls.map (·.since) = [0, 1, 0]
    ∧ (HistoryClient.delivered polls).map (·.id) = [1, 1]
    ∧ ¬ HistoryClient.PagedRight polls := by
  have hids : (HistoryClient.delivered
      (HistoryClient.run { captureID := 1 } onePacketTable 0 [.poll, .poll, .poll]).polls).map
        (·.id) = [1, 1] := by decide
  refine ⟨by decide, hids, fun h => ?_⟩
  have hlt := List.pairwise_map.mpr h.sorted
  rw [hids] at hlt
  exact absurd hlt (by decide)

end Etherchimp
