import Etherchimp.Proof.FailedFlush
import Etherchimp.Proof.ReplayPrefix
import Etherchimp.Store.Captures

/-!
# The pcap cache holds what the reader returned

A capture found for a file was begun for a file of the same name, size and hash, and its
rows are the totals over the packets its reader returned of that file, whatever other
sessions, prunes and crashes came before, in between and after. That is the whole file
where its timestamps never go back. The flow buckets under its key are the file's on top
of what a deleted capture of the same key left behind.

A session that died before its stamp keeps its row for good. The index then refuses every
later session for the file, so the file is never found again.
-/

namespace Etherchimp

open Tally WriteBack

/-! ## The tables seen from one capture -/

namespace Tables

variable {id : Int} {t t' : Tables Counters}

/-- Nothing of the capture waits in memory to be written. -/
structure Calm (id : Int) (t : Tables Counters) : Prop where
  nodes : t.nodes.Calm fun k => k.captureID = id
  edges : t.edges.Calm fun k => k.captureID = id
  buckets : t.buckets.Calm fun k => k.captureID = id

/-- Nothing of the capture was ever counted. -/
structure Bare (id : Int) (t : Tables Counters) : Prop where
  nodes : t.nodes.Bare fun k => k.captureID = id
  edges : t.edges.Bare fun k => k.captureID = id

/-- The rows of the capture are the same. -/
structure SameRows (id : Int) (t t' : Tables Counters) : Prop where
  nodes : ∀ k, k.captureID = id → t'.nodes.rows k = t.nodes.rows k
  edges : ∀ k, k.captureID = id → t'.edges.rows k = t.edges.rows k
  buckets : ∀ k, k.captureID = id → t'.buckets.rows k = t.buckets.rows k

theorem SameRows.of_eq (hn : t'.nodes.rows = t.nodes.rows) (he : t'.edges.rows = t.edges.rows)
    (hb : t'.buckets.rows = t.buckets.rows) : SameRows id t t' :=
  ⟨fun _ _ => by rw [hn], fun _ _ => by rw [he], fun _ _ => by rw [hb]⟩

/-- The tables of one capture after the events `old`, snapshotted, and `new`, not yet. -/
structure Filing (id bucketSecs : Int) (found : BucketKey → Option Counters)
    (old new : List PacketEvent) (t : Tables Counters) : Prop where
  nodes : AbsoluteTable.Inv (fun k : NodeKey => k.captureID = id) (fun _ => none)
    (nodeHistory old) (nodeHistory new) t.nodes
  edges : AbsoluteTable.Inv (fun k : EdgeKey => k.captureID = id) (fun _ => none)
    (edgeHistory allCounters old) (edgeHistory allCounters new) t.edges
  buckets : DeltaTable.Over (fun k : BucketKey => k.captureID = id) found
    (bucketHistory bucketSecs old) (bucketHistory bucketSecs new) t.buckets

/-- No transaction is open for the capture. -/
structure NoBatch (id : Int) (t : Tables Counters) : Prop where
  nodes : ∀ k, k.captureID = id → t.nodes.batch k = none
  edges : ∀ k, k.captureID = id → t.edges.batch k = none
  buckets : ∀ k, k.captureID = id → t.buckets.batch k = none

variable {bucketSecs : Int} {found : BucketKey → Option Counters} {old new : List PacketEvent}

theorem Filing.record (h : Filing id bucketSecs found old new t) (ev : PacketEvent) :
    Filing id bucketSecs found old (new ++ [ev]) (t.record allCounters bucketSecs ev) where
  nodes := by
    have hadd := (h.nodes.add ⟨ev.captureID, ev.src⟩ ev.load).add ⟨ev.captureID, ev.dst⟩ ev.load
    rw [List.append_assoc] at hadd
    rw [nodeHistory_append new]
    exact hadd
  edges := by
    rw [edgeHistory_append _ new]
    exact h.edges.add _ _
  buckets := by
    rw [bucketHistory_append new]
    exact h.buckets.add _ _

theorem Filing.snapshot (hb : NoBatch id t) (h : Filing id bucketSecs found old new t) :
    Filing id bucketSecs found (old ++ new) [] t.snapshot where
  nodes := by
    rw [nodeHistory_append]
    exact h.nodes.snapshot hb.nodes
  edges := by
    rw [edgeHistory_append]
    exact h.edges.snapshot hb.edges
  buckets := by
    rw [bucketHistory_append]
    exact h.buckets.snapshot hb.buckets

theorem Filing.commit (h : Filing id bucketSecs found old new t) :
    Filing id bucketSecs found old new t.commit :=
  ⟨h.nodes.commit, h.edges.commit, h.buckets.commit⟩

theorem Filing.sameRows (h : Filing id bucketSecs found old new t)
    {nodes : NodeKey → Option Load} {edges : EdgeKey → Option Counters}
    {buckets : BucketKey → Option Counters}
    (hsame : SameRows id t ⟨{ t.nodes with rows := nodes }, { t.edges with rows := edges },
      { t.buckets with rows := buckets }⟩) :
    Filing id bucketSecs found old new ⟨{ t.nodes with rows := nodes },
      { t.edges with rows := edges }, { t.buckets with rows := buckets }⟩ :=
  ⟨h.nodes.congr_rows hsame.nodes, h.edges.congr_rows hsame.edges,
    h.buckets.congr_rows hsame.buckets⟩

/-- Once everything is taken up and written, nothing waits. -/
theorem Filing.calm (hb : NoBatch id t) (h : Filing id bucketSecs found old [] t) : Calm id t :=
  ⟨h.nodes.calm hb.nodes, h.edges.calm hb.edges, h.buckets.calm hb.buckets⟩

end Tables

namespace Store

variable {s s' : Store} {a : Action} {id bucketSecs : Int}

theorem noBatch_of_empty (h : s.batch = emptyBatch) : (s.tables allCounters).NoBatch id := by
  unfold tables
  rw [h]
  exact ⟨fun _ _ => rfl, fun _ _ => rfl, fun _ _ => rfl⟩

/-- A step that records nothing of a calm capture leaves it calm, and its rows as they are. -/
theorem Moves.calm (h : Moves allCounters bucketSecs s s' a)
    (hother : ∀ ev, a = .record ev → ev.captureID ≠ id) (hc : (s.tables allCounters).Calm id) :
    (s'.tables allCounters).Calm id
      ∧ Tables.SameRows id (s.tables allCounters) (s'.tables allCounters) := by
  cases h with
  | record ev hr ha ht =>
    have hne := hother ev ha
    rw [ht]
    exact ⟨⟨(hc.nodes.add hne _).add hne _, hc.edges.add hne _, hc.buckets.add hne _⟩,
      .of_eq rfl rfl rfl⟩
  | snapshot hr hf hb ht =>
    rw [ht]
    exact ⟨⟨hc.nodes.snapshot, hc.edges.snapshot, hc.buckets.snapshot⟩, .of_eq rfl rfl rfl⟩
  | commit ha ht =>
    rw [ht]
    exact ⟨⟨hc.nodes.commit, hc.edges.commit, hc.buckets.commit⟩,
      ⟨fun _ hk => hc.nodes.commit_rows hk, fun _ hk => hc.edges.commit_rows hk,
        fun _ hk => hc.buckets.commit_rows hk⟩⟩
  | rollback ha ht =>
    rw [ht]
    exact ⟨⟨hc.nodes.rollback, hc.edges.rollback, hc.buckets.rollback⟩, .of_eq rfl rfl rfl⟩
  | forget c ha ht =>
    rw [ht]
    exact ⟨⟨hc.nodes.forget _, hc.edges.forget _, hc.buckets⟩, .of_eq rfl rfl rfl⟩
  | idle hr hf ht =>
    rw [ht]
    exact ⟨hc, .of_eq rfl rfl rfl⟩

theorem Moves.bare (h : Moves allCounters bucketSecs s s' a)
    (hother : ∀ ev, a = .record ev → ev.captureID ≠ id) (hc : (s.tables allCounters).Bare id) :
    (s'.tables allCounters).Bare id := by
  cases h with
  | record ev hr ha ht =>
    have hne := hother ev ha
    rw [ht]
    exact ⟨(hc.nodes.add hne _).add hne _, hc.edges.add hne _⟩
  | snapshot hr hf hb ht | commit ha ht | rollback ha ht | idle hr hf ht =>
    rw [ht]
    exact ⟨hc.nodes, hc.edges⟩
  | forget c ha ht =>
    rw [ht]
    exact ⟨hc.nodes.forget _, hc.edges.forget _⟩

/-- What a step does to a capture that is being filed. -/
theorem Moves.filing {found : BucketKey → Option Counters} {old new : List PacketEvent}
    (h : Moves allCounters bucketSecs s s' a) (hf : a ≠ .commit false)
    (hd : ∀ c, a ≠ .dropCapture c)
    (hF : (s.tables allCounters).Filing id bucketSecs found old new) :
    ∃ old' new', (s'.tables allCounters).Filing id bucketSecs found old' new'
      ∧ old' ++ new' = old ++ new ++ recorded [a]
      ∧ (recorded [a] = [] → new = [] → new' = []) := by
  cases h with
  | record ev hr ha ht =>
    refine ⟨old, new ++ [ev], ht ▸ hF.record ev, ?_, ?_⟩
    · rw [hr, List.append_assoc]
    · intro hnone
      rw [hr] at hnone
      cases hnone
  | snapshot hr _ hb ht =>
    refine ⟨old ++ new, [], ht ▸ hF.snapshot (noBatch_of_empty hb), ?_, fun _ _ => rfl⟩
    rw [hr]
  | commit ha ht =>
    subst ha
    exact ⟨old, new, ht ▸ hF.commit, (List.append_nil _).symm, fun _ h => h⟩
  | rollback ha ht => exact absurd ha hf
  | forget c ha ht => exact absurd ha (hd c)
  | idle hr _ ht =>
    refine ⟨old, new, ht ▸ hF, ?_, fun _ h => h⟩
    rw [hr, List.append_nil]

/-- A drain ends in a snapshot. -/
theorem drain_or_snapshot (reg : Registry) {stop : Bool} (hp : s.phase = .drain stop) :
    (step reg s .drain).phase = .drain stop
      ∨ (step reg s .drain).tables allCounters = (s.tables allCounters).snapshot := by
  simp only [step, hp, drainOne]
  split
  · split
    · exact .inl rfl
    · exact .inr (beginFlush_tables allCounters s stop)
  · exact .inr (beginFlush_tables allCounters s stop)

end Store

/-! ## What a session stores -/

/-- The packets of the session as it records them. -/
def Ingest.filed (g : Ingest) (id : Int) : List PacketEvent :=
  g.packets.map fun ev => { ev with captureID := id }

/-- The rows of a capture are the totals over the packets it was begun with. -/
structure Stored (id : Int) (g : Ingest) (db : DB) : Prop where
  nodes : ∀ k : NodeKey, k.captureID = id →
    counters NodeRow.load db.nodes k = cell (nodeHistory (g.filed id)) k
  edges : ∀ k : EdgeKey, k.captureID = id →
    counters EdgeRow.counters db.edges k = cell (edgeHistory allCounters (g.filed id)) k
  /-- On top of the rows found under its key when it began. -/
  buckets : ∀ k : BucketKey, k.captureID = id →
    counters BucketRow.counters db.flowBuckets k
      = Option.merge (· + ·) (counters BucketRow.counters g.found k)
          (cell (bucketHistory g.bucketSecs (g.filed id)) k)

theorem Stored.of_sameRows {id : Int} {g : Ingest} {st st' : Store} (h : Stored id g st.db)
    (hsame : Tables.SameRows id (st.tables allCounters) (st'.tables allCounters)) :
    Stored id g st'.db where
  nodes k hk := (hsame.nodes k hk).trans (h.nodes k hk)
  edges k hk := (hsame.edges k hk).trans (h.edges k hk)
  buckets k hk := (hsame.buckets k hk).trans (h.buckets k hk)

/-- What a finished filing has written. -/
theorem Stored.of_filing {id : Int} {g : Ingest} {st : Store}
    (hb : (st.tables allCounters).NoBatch id)
    (h : (st.tables allCounters).Filing id g.bucketSecs (counters BucketRow.counters g.found)
      (g.filed id) []) : Stored id g st.db where
  nodes _ hk := (h.nodes.settled hb.nodes hk).trans Option.or_none
  edges _ hk := (h.edges.settled hb.edges hk).trans Option.or_none
  buckets _ hk := h.buckets.settled hb.buckets hk

namespace CaptureStore

variable {reg : Registry} {s : CaptureStore} {id : Int} {g : Ingest}

abbrev tables (s : CaptureStore) : Tables Counters := s.store.tables allCounters

/-- The stage the session of a pcap is in; what it has filed counts until something is lost. -/
inductive Stage (s : CaptureStore) (g : Ingest) : Prop
  | filing (rest : List PacketEvent)
      (hm : s.main = .ingesting rest ∨ (∃ ev, s.main = .indexing ev rest)
        ∨ s.main = .flushing false ∧ rest = [])
      (hg : g.lost = false → ∃ old new, s.tables.Filing s.captureID g.bucketSecs
        (counters BucketRow.counters g.found) old new
        ∧ old ++ new ++ rest.map s.filed = g.filed s.captureID)
  | flushing (hm : s.main = .flushing true)
      (hg : g.lost = false → ∃ old new, s.tables.Filing s.captureID g.bucketSecs
        (counters BucketRow.counters g.found) old new ∧ old ++ new = g.filed s.captureID
        ∧ (s.store.phase = .drain false ∨ new = []))
  | dropping (hm : s.main = .dropping ∨ s.main = .stamping)
      (hg : g.lost = false → s.tables.Calm s.captureID ∧ Stored s.captureID g s.store.db)

/-- The session is a pcap's, and its row is still open. -/
structure Own (s : CaptureStore) (g : Ingest) : Prop where
  live : s.live = false
  id : s.captureID ≠ 0
  begun : s.begun s.captureID = some g
  wf : s.store.WF g.bucketSecs
  row : ∃ r, s.captures.rows.lookup s.captureID = some r
    ∧ r.isPcap g.source g.file = true ∧ r.endedAt = none ∧ r.complete = false

/-- What the session of the process is. -/
inductive Session (s : CaptureStore) : Prop
  /-- None, and nothing has been counted. -/
  | none (hm : s.main = .opened ∨ s.main = .finished) (hid : s.captureID = 0)
      (hlive : s.live = false) (hbare : ∀ id, s.tables.Bare id)
  | live (hm : s.main = .capturing ∨ (∃ taken, s.main = .flushing taken) ∨ s.main = .dropping
        ∨ s.main = .stamping ∨ s.main = .finished)
      (hid : s.captureID ≠ 0)
      (hrow : ∀ r, s.captures.rows.lookup s.captureID = some r → r.kind ≠ .pcap)
  | pcap (g : Ingest) (hown : s.Own g) (hstage : s.Stage g)
  /-- A pcap's, and it is over. -/
  | afterwards (hm : s.main = .finished) (hlive : s.live = false) (hid : s.captureID ≠ 0)
      (hcalm : ∀ g, s.begun s.captureID = some g → g.lost = false → s.tables.Calm s.captureID)

/-- The invariant of the store across processes. -/
structure Kept (s : CaptureStore) : Prop where
  wf : s.store.WF s.store.agg.bucketSecs
  /-- Only the session's own capture is ever in memory. -/
  others : ∀ id, id ≠ s.captureID ∨ s.captureID = 0 → s.tables.Calm id
  knownNodes : ∀ k, s.tables.nodes.rows k ≠ none → k.captureID ∈ s.captures.rows.keys
  knownEdges : ∀ k, s.tables.edges.rows k ≠ none → k.captureID ∈ s.captures.rows.keys
  session : s.Session
  stamped : ∀ id r, s.captures.rows.lookup id = some r → r.complete = true → r.endedAt ≠ none
  cached : ∀ id r, s.captures.rows.lookup id = some r → r.kind = .pcap → r.complete = true →
    ∃ g, s.begun id = some g ∧ r.isPcap g.source g.file = true
      ∧ (g.lost = false → Stored id g s.store.db)

/-- A complete pcap is calm: it is another session's, or this one's and over. -/
theorem Kept.calm_of_complete (h : s.Kept) {r : CaptureRow}
    (hl : s.captures.rows.lookup id = some r) (hkind : r.kind = .pcap) (hcomplete : r.complete = true)
    {g : Ingest} (hg : s.begun id = some g) (hlost : g.lost = false) : s.tables.Calm id := by
  by_cases hid : id = s.captureID
  · subst hid
    cases h.session with
    | none _ h0 => exact h.others _ (.inr h0)
    | live _ _ hrow => exact absurd hkind (hrow r hl)
    | pcap _ hown =>
      obtain ⟨r', hr', -, -, hopen⟩ := hown.row
      rw [hl, Option.some.injEq] at hr'
      rw [← hr', hcomplete] at hopen
      cases hopen
    | afterwards _ _ _ hcalm => exact hcalm g hg hlost
  · exact h.others id (.inl hid)

/-! ## One step of the store -/

variable (reg) in
/-- The step of the store keeps everything but the session, which is seen to by itself. -/
theorem Kept.storeStep (h : s.Kept) (a : Store.Action)
    (hrecord : ∀ ev, a = .record ev → ev.captureID = s.captureID ∧ s.captureID ≠ 0
      ∧ ∀ r, s.captures.rows.lookup s.captureID = some r → r.kind = .pcap → r.complete = false)
    (hcommit : a = .commit true → s.store.batch.refersTo s.captures = true)
    {s' : CaptureStore} (hstore : s'.store = Store.step reg s.store a)
    (hcaptures : s'.captures = s.captures) (hid : s'.captureID = s.captureID)
    (hbegun : ∀ id g, s.begun id = some g → ∀ r, s.captures.rows.lookup id = some r →
      r.complete = true → r.kind = .pcap → s'.begun id = some g)
    (hsession : s'.Session) : s'.Kept := by
  have hmoves := Store.step_moves reg allCounters h.wf a
  have hsecs : (Store.step reg s.store a).agg.bucketSecs = s.store.agg.bucketSecs :=
    (h.wf.step reg a).bucketSecs
  have hne : ∀ id, id ≠ s.captureID ∨ s.captureID = 0 → ∀ ev, a = .record ev → ev.captureID ≠ id := by
    intro id hid ev ha hev
    obtain ⟨hown, hnz, -⟩ := hrecord ev ha
    rcases hid with hid | hid
    · exact hid (hev.symm.trans hown)
    · exact hnz hid
  -- a new row is one of the batch, and the transaction checked that its capture is there
  have hbatch : ∀ {κ ν : Type} [DecidableEq κ] {M : Type} {m : KeyedMap κ ν} {f : ν → M} {k : κ},
      counters f m k ≠ none → k ∈ m.keys := by
    intro κ ν _ M m f k hk
    rw [KeyedMap.mem_keys_iff, ← Option.ne_none_iff_exists']
    exact fun hn => hk (by unfold counters; rw [hn]; rfl)
  have hrefers : a = .commit true →
      (∀ k ∈ s.store.batch.nodes.keys, k.captureID ∈ s.captures.rows.keys)
        ∧ ∀ k ∈ s.store.batch.edges.keys, k.captureID ∈ s.captures.rows.keys := by
    intro ha
    have hr := hcommit ha
    unfold FlushBatch.refersTo at hr
    rw [Bool.and_eq_true, List.all_eq_true, List.all_eq_true] at hr
    exact ⟨fun k hk => of_decide_eq_true (hr.1 k hk), fun k hk => of_decide_eq_true (hr.2 k hk)⟩
  refine
    { wf := ?_, others := ?_, knownNodes := ?_, knownEdges := ?_, session := hsession
      stamped := hcaptures ▸ h.stamped, cached := ?_ }
  · rw [hstore, hsecs]
    exact h.wf.step reg a
  · intro id hid'
    rw [hid] at hid'
    unfold tables
    rw [hstore]
    exact (hmoves.calm (hne id hid') (h.others id hid')).1
  · intro k hk
    unfold tables at hk
    rw [hstore] at hk
    rw [hcaptures]
    cases hmoves with
    | commit ha ht =>
      rw [ht] at hk
      by_cases hrow : s.tables.nodes.rows k = none
      · refine (hrefers ha).1 k (hbatch (f := NodeAgg.load) fun hn => hk ?_)
        show (counters NodeAgg.load s.store.batch.nodes k).or (s.tables.nodes.rows k) = none
        rw [hn, hrow]
        rfl
      · exact h.knownNodes k hrow
    | record ev hr ha ht | snapshot hr hf hb ht | rollback ha ht | forget c ha ht
    | idle hr hf ht =>
      rw [ht] at hk
      exact h.knownNodes k hk
  · intro k hk
    unfold tables at hk
    rw [hstore] at hk
    rw [hcaptures]
    cases hmoves with
    | commit ha ht =>
      rw [ht] at hk
      by_cases hrow : s.tables.edges.rows k = none
      · refine (hrefers ha).2 k (hbatch (f := fun e : EdgeAgg => allCounters e.counters)
          fun hn => hk ?_)
        show (counters (fun e : EdgeAgg => allCounters e.counters) s.store.batch.edges k).or
          (s.tables.edges.rows k) = none
        rw [hn, hrow]
        rfl
      · exact h.knownEdges k hrow
    | record ev hr ha ht | snapshot hr hf hb ht | rollback ha ht | forget c ha ht
    | idle hr hf ht =>
      rw [ht] at hk
      exact h.knownEdges k hk
  · intro id r hl hkind hcomplete
    rw [hcaptures] at hl
    obtain ⟨g, hg, hpcap, hstored⟩ := h.cached id r hl hkind hcomplete
    refine ⟨g, hbegun id g hg r hl hcomplete hkind, hpcap, fun hlost => ?_⟩
    have hcalm := h.calm_of_complete hl hkind hcomplete hg hlost
    have hother : ∀ ev, a = .record ev → ev.captureID ≠ id := by
      intro ev ha hev
      obtain ⟨hown, -, hnot⟩ := hrecord ev ha
      rw [← hev, hown] at hl
      rw [hnot r hl hkind] at hcomplete
      cases hcomplete
    rw [hstore]
    exact (hstored hlost).of_sameRows (hmoves.calm hother hcalm).2

/-! ## The session and the writer -/

theorem Own.store (h : s.Own g) (a : Store.Action) :
    { s with store := Store.step reg s.store a }.Own g :=
  ⟨h.live, h.id, h.begun, h.wf.step reg a, h.row⟩

/-- The packets still to come are those of a pcap that is being filed. -/
theorem Kept.filing (h : s.Kept) {rest : List PacketEvent}
    (hm : s.main = .ingesting rest ∨ ∃ ev, s.main = .indexing ev rest) :
    ∃ g, s.Own g ∧ (g.lost = false → ∃ old new, s.tables.Filing s.captureID g.bucketSecs
      (counters BucketRow.counters g.found) old new
      ∧ old ++ new ++ rest.map s.filed = g.filed s.captureID) := by
  cases h.session with
  | none hm' =>
    rcases hm with hm | ⟨ev, hm⟩ <;> rcases hm' with hm' | hm' <;> rw [hm] at hm' <;> cases hm'
  | live hm' =>
    rcases hm with hm | ⟨ev, hm⟩ <;> rcases hm' with hm' | ⟨_, hm'⟩ | hm' | hm' | hm' <;>
      rw [hm] at hm' <;> cases hm'
  | afterwards hm' =>
    rcases hm with hm | ⟨ev, hm⟩ <;> rw [hm] at hm' <;> cases hm'
  | pcap g hown hstage =>
    refine ⟨g, hown, ?_⟩
    cases hstage with
    | filing rest' hm' hg =>
      have hrest : rest' = rest := by
        rcases hm with hm | ⟨ev, hm⟩ <;> rcases hm' with hm' | ⟨ev', hm'⟩ | ⟨hm', -⟩ <;>
          rw [hm] at hm' <;> cases hm' <;> rfl
      exact hrest ▸ hg
    | flushing hm' =>
      rcases hm with hm | ⟨ev, hm⟩ <;> rw [hm] at hm' <;> cases hm'
    | dropping hm' =>
      rcases hm with hm | ⟨ev, hm⟩ <;> rcases hm' with hm' | hm' <;> rw [hm] at hm' <;> cases hm'

/-- A session outlives every step that neither records, nor drops, nor loses anything. -/
theorem Kept.session_store (h : s.Kept) {a : Store.Action} (hrecord : ∀ ev, a ≠ .record ev)
    (hdrop : ∀ c, a ≠ .dropCapture c) (hf : a ≠ .commit false)
    (hphase : s.main = .flushing true → s.store.phase = .drain false →
      (Store.step reg s.store a).phase = .drain false
        ∨ (Store.step reg s.store a).tables allCounters = s.tables.snapshot) :
    Session { s with store := Store.step reg s.store a } := by
  have hmoves := Store.step_moves reg allCounters h.wf a
  have hnil : Store.recorded [a] = [] := by
    cases a with
    | record ev => exact absurd rfl (hrecord ev)
    | _ => rfl
  have hother : ∀ {id : Int}, ∀ ev, a = .record ev → ev.captureID ≠ id :=
    fun ev ha => absurd ha (hrecord ev)
  cases h.session with
  | none hm hid hlive hbare =>
    exact .none hm hid hlive fun id => hmoves.bare hother (hbare id)
  | live hm hid hrow => exact .live hm hid hrow
  | afterwards hm hlive hid hcalm =>
    exact .afterwards hm hlive hid fun g hg hlost => (hmoves.calm hother (hcalm g hg hlost)).1
  | pcap g hown hstage =>
    refine .pcap g (hown.store _) ?_
    have hmoves := Store.step_moves reg allCounters hown.wf a
    cases hstage with
    | filing rest hm hg =>
      refine .filing rest hm fun hlost => ?_
      obtain ⟨old, new, hF, heq⟩ := hg hlost
      obtain ⟨old', new', hF', heq', -⟩ := hmoves.filing hf hdrop hF
      rw [hnil, List.append_nil] at heq'
      exact ⟨old', new', hF', heq' ▸ heq⟩
    | flushing hm hg =>
      refine .flushing hm fun hlost => ?_
      obtain ⟨old, new, hF, heq, hnew⟩ := hg hlost
      rcases hnew with hdrain | hnew
      · rcases hphase hm hdrain with hp | ht
        · obtain ⟨old', new', hF', heq', -⟩ := hmoves.filing hf hdrop hF
          rw [hnil, List.append_nil] at heq'
          exact ⟨old', new', hF', heq'.trans heq, .inl hp⟩
        · refine ⟨old ++ new, [], ?_, (List.append_nil _).trans heq, .inr rfl⟩
          show ((Store.step reg s.store a).tables allCounters).Filing _ _ _ _ _
          rw [ht]
          exact hF.snapshot (Store.noBatch_of_empty (Store.batch_of_phase hdrain nofun))
      · obtain ⟨old', new', hF', heq', hstay⟩ := hmoves.filing hf hdrop hF
        rw [hnil, List.append_nil] at heq'
        exact ⟨old', new', hF', heq'.trans heq, .inr (hstay hnil hnew)⟩
    | dropping hm hg =>
      refine .dropping hm fun hlost => ?_
      obtain ⟨hcalm, hstored⟩ := hg hlost
      obtain ⟨hcalm', hsame⟩ := hmoves.calm hother hcalm
      exact ⟨hcalm', hstored.of_sameRows hsame⟩

theorem noteLost_eq (hmain : s.main ≠ .finished) :
    s.noteLost = Function.update s.begun s.captureID
      ((s.begun s.captureID).map fun g => { g with lost := true }) := by
  unfold noteLost
  split
  · rename_i hfin
    exact absurd hfin hmain
  · rfl

/-- A session that lost a transaction goes on, with nothing to show. -/
theorem Kept.session_lost (h : s.Kept) :
    Session { s with store := Store.step reg s.store (.commit false), begun := s.noteLost } := by
  have hmoves := Store.step_moves reg allCounters h.wf (.commit false)
  cases h.session with
  | none hm hid hlive hbare =>
    exact .none hm hid hlive fun id => hmoves.bare nofun (hbare id)
  | live hm hid hrow => exact .live hm hid hrow
  | afterwards hm hlive hid hcalm =>
    refine .afterwards hm hlive hid fun g hg hlost => (hmoves.calm nofun (hcalm g ?_ hlost)).1
    have hg : s.noteLost s.captureID = some g := hg
    unfold noteLost at hg
    rwa [hm] at hg
  | pcap g hown hstage =>
    have hmain : s.main ≠ .finished := by
      intro hfin
      cases hstage with
      | filing rest hm =>
        rcases hm with hm | ⟨ev, hm⟩ | ⟨hm, -⟩ <;> rw [hfin] at hm <;> cases hm
      | flushing hm => rw [hfin] at hm; cases hm
      | dropping hm => rcases hm with hm | hm <;> rw [hfin] at hm <;> cases hm
    have hnote := noteLost_eq hmain
    refine .pcap { g with lost := true } ⟨hown.live, hown.id, ?_, hown.wf.step reg (.commit false), hown.row⟩ ?_
    · show s.noteLost s.captureID = _
      rw [hnote, Function.update_self, hown.begun]
      rfl
    · cases hstage with
      | filing rest hm => exact .filing rest hm nofun
      | flushing hm => exact .flushing hm nofun
      | dropping hm => exact .dropping hm nofun

/-- A batch the session wrote refers to the session's own row. -/
theorem Kept.refersTo (h : s.Kept) {r : CaptureRow}
    (hl : s.captures.rows.lookup s.captureID = some r) :
    s.store.batch.refersTo s.captures = true := by
  have hmem : s.captureID ∈ s.captures.rows.keys := (KeyedMap.mem_keys_iff _ _).mpr ⟨r, hl⟩
  have hown : ∀ {κ ν : Type} [DecidableEq κ] {M : Type} {m : KeyedMap κ ν} {f : ν → M} {k : κ},
      counters f m k = none → k ∉ m.keys := by
    intro κ ν _ M m f k hn hk
    obtain ⟨x, hx⟩ := (KeyedMap.mem_keys_iff m k).mp hk
    unfold counters at hn
    rw [hx] at hn
    cases hn
  unfold FlushBatch.refersTo
  rw [Bool.and_eq_true, List.all_eq_true, List.all_eq_true]
  refine ⟨fun k hk => decide_eq_true ?_, fun k hk => decide_eq_true ?_⟩
  · by_cases hid : k.captureID = s.captureID
    · rwa [hid]
    · exact absurd hk (hown (f := NodeAgg.load) ((h.others _ (.inl hid)).nodes.batch k rfl))
  · by_cases hid : k.captureID = s.captureID
    · rwa [hid]
    · exact absurd hk (hown (f := fun e : EdgeAgg => allCounters e.counters)
        ((h.others _ (.inl hid)).edges.batch k rfl))

/-- Losing a transaction is noted on no capture that is complete. -/
theorem Kept.noteLost (h : s.Kept) {r : CaptureRow} (hl : s.captures.rows.lookup id = some r)
    (hkind : r.kind = .pcap) (hcomplete : r.complete = true) : s.noteLost id = s.begun id := by
  by_cases hmain : s.main = .finished
  · unfold CaptureStore.noteLost
    rw [hmain]
  · rw [noteLost_eq hmain]
    refine Function.update_of_ne ?_ _ _
    intro hid
    subst hid
    cases h.session with
    | none hm h0 =>
      have := s.captures.positive _ r hl
      omega
    | live _ _ hrow => exact hrow r hl hkind
    | pcap g hown =>
      obtain ⟨r', hr', -, -, hopen⟩ := hown.row
      rw [hl, Option.some.injEq] at hr'
      rw [← hr', hcomplete] at hopen
      cases hopen
    | afterwards hm => exact hmain hm

/-! ## One step of the process -/

/-- Only the place in the program changes. -/
theorem Kept.of_main (h : s.Kept) {m : Main} (hs : Session { s with main := m }) :
    Kept { s with main := m } :=
  ⟨h.wf, h.others, h.knownNodes, h.knownEdges, hs, h.stamped, h.cached⟩

/-- The writer goes on, or is asked something. -/
theorem Kept.writerStep (h : s.Kept) {a : Store.Action} (hrecord : ∀ ev, a ≠ .record ev)
    (hdrop : ∀ c, a ≠ .dropCapture c) (hf : ∀ ok, a ≠ .commit ok)
    (hphase : s.main = .flushing true → s.store.phase = .drain false →
      (Store.step reg s.store a).phase = .drain false
        ∨ (Store.step reg s.store a).tables allCounters = s.tables.snapshot) :
    Kept { s with store := Store.step reg s.store a } :=
  h.storeStep reg a (fun ev ha => absurd ha (hrecord ev)) (fun ha => absurd ha (hf true)) rfl rfl rfl
    (fun _ _ hg _ _ _ _ => hg) (h.session_store hrecord hdrop (hf false) hphase)

theorem Kept.commit (h : s.Kept) (ok : Bool) : (s.commit reg ok).Kept := by
  unfold CaptureStore.commit
  split
  · rename_i fb stop hp
    have hb : s.store.batch = fb := by
      unfold Store.batch
      rw [hp]
    have hquiet : s.main = .flushing true → s.store.phase = .drain false → False := by
      intro _ hd
      rw [hp] at hd
      cases hd
    cases ok with
    | false =>
      rw [Bool.false_and, if_neg Bool.false_ne_true]
      refine h.storeStep reg (.commit false) nofun nofun rfl rfl rfl (fun id g hg r hl hc hk => ?_)
        h.session_lost
      exact (h.noteLost hl hk hc).trans hg
    | true =>
      rw [Bool.true_and, if_pos rfl]
      by_cases hrefers : fb.refersTo s.captures = true
      · rw [hrefers]
        exact h.storeStep reg (.commit true) nofun (fun _ => hb ▸ hrefers) rfl rfl rfl
          (fun _ _ hg _ _ _ _ => hg)
          (h.session_store nofun nofun nofun fun hm hd => (hquiet hm hd).elim)
      · rw [Bool.eq_false_iff.mpr hrefers]
        have hmoves := Store.step_moves reg allCounters h.wf (.commit false)
        refine h.storeStep reg (.commit false) nofun nofun rfl rfl rfl (fun _ _ hg _ _ _ _ => hg) ?_
        -- only a row that is gone can fail the transaction, and a pcap's own is there
        cases h.session with
        | none hm hid hlive hbare =>
          exact .none hm hid hlive fun id => hmoves.bare nofun (hbare id)
        | live hm hid hrow => exact .live hm hid hrow
        | afterwards hm hlive hid hcalm =>
          exact .afterwards hm hlive hid fun g hg hlost => (hmoves.calm nofun (hcalm g hg hlost)).1
        | pcap g hown =>
          obtain ⟨r, hr, -⟩ := hown.row
          exact absurd (hb ▸ h.refersTo hr) hrefers
  · exact h

theorem Kept.ingest (h : s.Kept) (sampled : Bool) : (step reg s (.ingest sampled)).Kept := by
  simp only [step]
  split
  · rename_i ev rest hm
    obtain ⟨g, hown, hg⟩ := h.filing (.inl hm)
    have hrecorded : Store.recorded [.record (s.filed ev)] = [s.filed ev] := by
      simp only [Store.recorded, List.filterMap_cons, List.filterMap_nil]
      rw [if_neg (show ¬ (s.filed ev).captureID = 0 from hown.id)]
    refine h.storeStep reg (.record (s.filed ev)) ?_ (fun h => by cases h) rfl rfl rfl
      (fun _ _ hg _ _ _ _ => hg) ?_
    · intro ev' ha
      cases ha
      refine ⟨rfl, hown.id, fun r hl _ => ?_⟩
      obtain ⟨r', hr', -, -, hopen⟩ := hown.row
      rw [hl, Option.some.injEq] at hr'
      rw [hr']
      exact hopen
    · refine .pcap g ⟨hown.live, hown.id, hown.begun, hown.wf.step reg (.record (s.filed ev)), hown.row⟩ ?_
      refine .filing rest ?_ fun hlost => ?_
      · cases sampled with
        | false => exact .inl rfl
        | true => exact .inr (.inl ⟨ev, rfl⟩)
      · obtain ⟨old, new, hF, heq⟩ := hg hlost
        obtain ⟨old', new', hF', heq', -⟩ :=
          (Store.step_moves reg allCounters hown.wf (.record (s.filed ev))).filing
            (fun h => by cases h) (fun _ h => by cases h) hF
        refine ⟨old', new', hF', ?_⟩
        rw [heq', hrecorded, ← heq, List.map_cons, List.append_assoc _ [_]]
        rfl
  · exact h

theorem Kept.index (h : s.Kept) : (step reg s .index).Kept := by
  simp only [step]
  split
  · rename_i ev rest hm
    split
    · have h₁ : Kept { s with store := Store.step reg s.store (.send (s.filed ev)) } :=
        h.writerStep nofun nofun nofun fun hm' => by rw [hm] at hm'; cases hm'
      obtain ⟨g, hown, hg⟩ := h₁.filing (.inr ⟨ev, hm⟩)
      exact h₁.of_main (.pcap g ⟨hown.live, hown.id, hown.begun, hown.wf, hown.row⟩
        (.filing rest (.inl rfl) hg))
    · exact h
  · exact h

theorem Kept.of_live (h : s.Kept) (hlive : s.live = true) :
    s.captureID ≠ 0 ∧ (∀ r, s.captures.rows.lookup s.captureID = some r → r.kind ≠ .pcap)
      ∧ ∀ st, Session { s with store := st } := by
  cases h.session with
  | none _ _ hnot => rw [hlive] at hnot; cases hnot
  | live hm hid hrow => exact ⟨hid, hrow, fun st => .live hm hid hrow⟩
  | pcap _ hown => have := hown.live; rw [hlive] at this; cases this
  | afterwards _ hnot => rw [hlive] at hnot; cases hnot

theorem Kept.capture (h : s.Kept) (ev : PacketEvent) : (step reg s (.capture ev)).Kept := by
  simp only [step]
  split
  · rename_i hlive
    obtain ⟨hid, hrow, hsession⟩ := h.of_live hlive
    refine h.storeStep reg (.record (s.filed ev)) ?_ nofun rfl rfl rfl (fun _ _ hg _ _ _ _ => hg)
      (hsession _)
    intro ev' ha
    cases ha
    exact ⟨rfl, hid, fun r hl hk => absurd hk (hrow r hl)⟩
  · exact h

theorem Kept.captureIndex (h : s.Kept) (ev : PacketEvent) :
    (step reg s (.captureIndex ev)).Kept := by
  simp only [step]
  split
  · rename_i hlive
    exact h.storeStep reg (.send (s.filed ev)) nofun nofun rfl rfl rfl (fun _ _ hg _ _ _ _ => hg)
      ((h.of_live hlive).2.2 _)
  · exact h

/-! ### Sessions begin -/

theorem insert_eq {t t' : CaptureTable} {row : CaptureRow} (h : t.insert row = some (id, t')) :
    id = t.maxID + 1 ∧ t'.rows = t.rows.insert id row := by
  unfold CaptureTable.insert at h
  split at h
  · cases h
  · cases h
    exact ⟨rfl, rfl⟩

/-- Before its session a process has counted nothing. -/
theorem Kept.of_opened (h : s.Kept) (hm : s.main = .opened) :
    s.captureID = 0 ∧ s.live = false ∧ ∀ id, s.tables.Bare id := by
  cases h.session with
  | none _ hid hlive hbare => exact ⟨hid, hlive, hbare⟩
  | live hm' =>
    rcases hm' with hm' | ⟨_, hm'⟩ | hm' | hm' | hm' <;> rw [hm] at hm' <;> cases hm'
  | afterwards hm' => rw [hm] at hm'; cases hm'
  | pcap g hown hstage =>
    cases hstage with
    | filing rest hm' =>
      rcases hm' with hm' | ⟨ev, hm'⟩ | ⟨hm', -⟩ <;> rw [hm] at hm' <;> cases hm'
    | flushing hm' => rw [hm] at hm'; cases hm'
    | dropping hm' => rcases hm' with hm' | hm' <;> rw [hm] at hm' <;> cases hm'

theorem Kept.unrecorded (h : s.Kept) (hm : s.main = .opened) :
    Kept { s with main := .finished } := by
  obtain ⟨hid, hlive, hbare⟩ := h.of_opened hm
  exact h.of_main (.none (.inr rfl) hid hlive hbare)

/-- A new row changes nothing for the others. -/
theorem Kept.begins (h : s.Kept) (hm : s.main = .opened) {row : CaptureRow} {t : CaptureTable}
    (hins : s.captures.insert row = some (id, t)) (hopen : row.complete = false)
    {x : Option Ingest} {s' : CaptureStore} (hcaptures : s'.captures = t)
    (hstore : s'.store = s.store) (hbegun : s'.begun = Function.update s.begun id x)
    (hsession : s'.Session) : s'.Kept := by
  obtain ⟨hid, hrows⟩ := insert_eq hins
  have hkeys : ∀ c, c ∈ s.captures.rows.keys → c ∈ s'.captures.rows.keys := by
    intro c hc
    rw [hcaptures, hrows, ← AList.mem_keys, AList.mem_insert]
    exact .inr (AList.mem_keys.mpr hc)
  refine
    { wf := hstore ▸ h.wf, others := fun c _ => ?_, knownNodes := fun k hk => hkeys _ ?_
      knownEdges := fun k hk => hkeys _ ?_, session := hsession, stamped := ?_, cached := ?_ }
  · unfold tables
    rw [hstore]
    exact h.others c (.inr (h.of_opened hm).1)
  · unfold tables at hk
    rw [hstore] at hk
    exact h.knownNodes k hk
  · unfold tables at hk
    rw [hstore] at hk
    exact h.knownEdges k hk
  · intro c r hl hcomplete
    rw [hcaptures, hrows, KeyedMap.lookup_insert_eq] at hl
    split at hl
    · rw [← Option.some.inj hl, hopen] at hcomplete
      cases hcomplete
    · exact h.stamped c r hl hcomplete
  · intro c r hl hkind hcomplete
    rw [hcaptures, hrows, KeyedMap.lookup_insert_eq] at hl
    split at hl
    · rw [← Option.some.inj hl, hopen] at hcomplete
      cases hcomplete
    · rename_i hc
      obtain ⟨g, hg, hpcap, hstored⟩ := h.cached c r hl hkind hcomplete
      refine ⟨g, ?_, hpcap, hstore ▸ hstored⟩
      rw [hbegun, Function.update_of_ne hc]
      exact hg

theorem opened_complete (kind : CaptureKind) (source : String) (fm : FileMeta) (now : Int) :
    (CaptureRow.opened kind source fm now).complete = false := by
  unfold CaptureRow.opened
  split <;> rfl

theorem opened_kind (kind : CaptureKind) (source : String) (fm : FileMeta) (now : Int) :
    (CaptureRow.opened kind source fm now).kind = kind := by
  unfold CaptureRow.opened
  split <;> rfl

theorem opened_isPcap (source : String) {fm : FileMeta} (hhash : fm.hash ≠ "") (now : Int) :
    (CaptureRow.opened .pcap source fm now).isPcap source fm = true
      ∧ (CaptureRow.opened .pcap source fm now).endedAt = none := by
  unfold CaptureRow.opened
  rw [if_pos hhash]
  refine ⟨?_, rfl⟩
  unfold CaptureRow.isPcap
  simp only [decide_true, Bool.and_self]

theorem Kept.beginPcap (h : s.Kept) (hm : s.main = .opened) (source : String) {fm : FileMeta}
    (hhash : fm.hash ≠ "") (frames : List (Option PacketInfo × Int)) (full : Offset) (now : Int) :
    (s.beginPcap source fm frames full now).Kept := by
  obtain ⟨h0, hlive, hbare⟩ := h.of_opened hm
  unfold CaptureStore.beginPcap
  split
  · rename_i id t hins
    obtain ⟨hid, hrows⟩ := insert_eq hins
    have hfresh : s.captures.rows.lookup id = none := hid ▸ s.captures.lookup_fresh
    have hnew : t.rows.lookup id = some (.opened .pcap source fm now) := by
      rw [hrows, KeyedMap.lookup_insert_eq, if_pos rfl]
    have hgone : id ∉ s.captures.rows.keys := fun hmem =>
      AList.lookup_eq_none.mp hfresh (AList.mem_keys.mpr hmem)
    have hcalm := h.others id (.inr h0)
    refine h.begins hm hins (opened_complete ..) rfl rfl rfl (.pcap _
      { live := hlive, id := ne_of_gt (t.positive id _ hnew), begun := Function.update_self ..
        wf := h.wf, row := ?_ } (.filing _ (.inl rfl) fun _ => ⟨[], [], ?_, rfl⟩))
    · exact ⟨_, hnew, (opened_isPcap source hhash now).1, (opened_isPcap source hhash now).2,
        opened_complete ..⟩
    · refine ⟨(AbsoluteTable.inv_init hcalm.nodes (hbare id).nodes).congr_base ?_,
        (AbsoluteTable.inv_init hcalm.edges (hbare id).edges).congr_base ?_,
        DeltaTable.over_init hcalm.buckets⟩
      · intro k hk
        by_contra hne
        exact hgone (hk ▸ h.knownNodes k hne)
      · intro k hk
        by_contra hne
        exact hgone (hk ▸ h.knownEdges k hne)
  · exact h.unrecorded hm

theorem Kept.beginLive (h : s.Kept) (hm : s.main = .opened) {kind : CaptureKind}
    (hkind : kind ≠ .pcap) (source : String) (now : Int) : (s.beginLive kind source now).Kept := by
  unfold CaptureStore.beginLive
  split
  · rename_i id t hins
    obtain ⟨hid, hrows⟩ := insert_eq hins
    have hnew : t.rows.lookup id = some (.opened kind source {} now) := by
      rw [hrows, KeyedMap.lookup_insert_eq, if_pos rfl]
    refine h.begins hm hins (opened_complete ..) rfl rfl rfl
      (.live (.inl rfl) (ne_of_gt (t.positive id _ hnew)) fun r hl => ?_)
    have hl : t.rows.lookup id = some r := hl
    rw [hnew, Option.some.injEq] at hl
    rw [← hl, opened_kind]
    exact hkind
  · exact h.unrecorded hm

/-! ### Sessions end -/

theorem Kept.endCapture (h : s.Kept) : (step reg s .endCapture).Kept := by
  simp only [step]
  split
  · rename_i hm
    obtain ⟨g, hown, hg⟩ := h.filing (.inl hm)
    exact h.of_main (.pcap g ⟨hown.live, hown.id, hown.begun, hown.wf, hown.row⟩
      (.filing [] (.inr (.inr ⟨rfl, rfl⟩)) hg))
  · rename_i hm
    cases h.session with
    | none hm' => rcases hm' with hm' | hm' <;> rw [hm] at hm' <;> cases hm'
    | live _ hid hrow => exact h.of_main (.live (.inr (.inl ⟨false, rfl⟩)) hid hrow)
    | afterwards hm' => rw [hm] at hm'; cases hm'
    | pcap g hown hstage =>
      cases hstage with
      | filing rest hm' =>
        rcases hm' with hm' | ⟨ev, hm'⟩ | ⟨hm', -⟩ <;> rw [hm] at hm' <;> cases hm'
      | flushing hm' => rw [hm] at hm'; cases hm'
      | dropping hm' => rcases hm' with hm' | hm' <;> rw [hm] at hm' <;> cases hm'
  · exact h

/-- A session that waits in `Flush`. -/
theorem Kept.of_flushing (h : s.Kept) {taken : Bool} (hm : s.main = .flushing taken) :
    s.captureID ≠ 0 ∧ (∀ r, s.captures.rows.lookup s.captureID = some r → r.kind ≠ .pcap)
      ∨ ∃ g, s.Own g ∧ (g.lost = false → ∃ old new, s.tables.Filing s.captureID g.bucketSecs
          (counters BucketRow.counters g.found) old new ∧ old ++ new = g.filed s.captureID
          ∧ (taken = true → s.store.phase = .drain false ∨ new = [])) := by
  cases h.session with
  | none hm' => rcases hm' with hm' | hm' <;> rw [hm] at hm' <;> cases hm'
  | live _ hid hrow => exact .inl ⟨hid, hrow⟩
  | afterwards hm' => rw [hm] at hm'; cases hm'
  | pcap g hown hstage =>
    refine .inr ⟨g, hown, fun hlost => ?_⟩
    cases hstage with
    | filing rest hm' hg =>
      rcases hm' with hm' | ⟨ev, hm'⟩ | ⟨hm', rfl⟩
      · rw [hm] at hm'; cases hm'
      · rw [hm] at hm'; cases hm'
      · rw [hm] at hm'
        cases hm'
        obtain ⟨old, new, hF, heq⟩ := hg hlost
        exact ⟨old, new, hF, (List.append_nil _).symm.trans heq, nofun⟩
    | flushing hm' hg =>
      obtain ⟨old, new, hF, heq, hnew⟩ := hg hlost
      exact ⟨old, new, hF, heq, fun _ => hnew⟩
    | dropping hm' => rcases hm' with hm' | hm' <;> rw [hm] at hm' <;> cases hm'

theorem Kept.taken (h : s.Kept) : (step reg s .taken).Kept := by
  simp only [step]
  split
  · rename_i hm hp
    have h₁ : Kept { s with store := Store.step reg s.store .flushReq } :=
      h.writerStep nofun nofun nofun fun hm' => by rw [hm] at hm'; cases hm'
    have hdrain : (Store.step reg s.store .flushReq).phase = .drain false := by
      simp only [Store.step, hp]
    rcases h₁.of_flushing hm with ⟨hid, hrow⟩ | ⟨g, hown, hg⟩
    · exact h₁.of_main (.live (.inr (.inl ⟨true, rfl⟩)) hid hrow)
    · refine h₁.of_main (.pcap g ⟨hown.live, hown.id, hown.begun, hown.wf, hown.row⟩
        (.flushing rfl fun hlost => ?_))
      obtain ⟨old, new, hF, heq, -⟩ := hg hlost
      exact ⟨old, new, hF, heq, .inl hdrain⟩
  · exact h

/-- `Flush` returns once the writer is back, and by then everything is written. -/
theorem Kept.replied (h : s.Kept) : (step reg s .replied).Kept := by
  simp only [step]
  split
  · rename_i hm hp
    rcases h.of_flushing hm with ⟨hid, hrow⟩ | ⟨g, hown, hg⟩
    · exact h.of_main (.live (.inr (.inr (.inl rfl))) hid hrow)
    · refine h.of_main (.pcap g ⟨hown.live, hown.id, hown.begun, hown.wf, hown.row⟩
        (.dropping (.inl rfl) fun hlost => ?_))
      obtain ⟨old, new, hF, heq, hnew⟩ := hg hlost
      have hnil : new = [] := by
        rcases hnew rfl with hdrain | hnil
        · rw [hp] at hdrain
          cases hdrain
        · exact hnil
      subst hnil
      rw [List.append_nil] at heq
      subst heq
      have hb : s.tables.NoBatch s.captureID :=
        Store.noBatch_of_empty (Store.batch_of_phase hp nofun)
      exact ⟨hF.calm hb, .of_filing hb hF⟩
  · exact h

/-- A session that has its answer. -/
theorem Kept.of_dropping (h : s.Kept) (hm : s.main = .dropping ∨ s.main = .stamping) :
    s.captureID ≠ 0 ∧ (∀ r, s.captures.rows.lookup s.captureID = some r → r.kind ≠ .pcap)
      ∨ ∃ g, s.Own g
          ∧ (g.lost = false → s.tables.Calm s.captureID ∧ Stored s.captureID g s.store.db) := by
  cases h.session with
  | none hm' =>
    rcases hm with hm | hm <;> rcases hm' with hm' | hm' <;> rw [hm] at hm' <;> cases hm'
  | live _ hid hrow => exact .inl ⟨hid, hrow⟩
  | afterwards hm' => rcases hm with hm | hm <;> rw [hm] at hm' <;> cases hm'
  | pcap g hown hstage =>
    refine .inr ⟨g, hown, ?_⟩
    cases hstage with
    | filing rest hm' =>
      rcases hm with hm | hm <;> rcases hm' with hm' | ⟨ev, hm'⟩ | ⟨hm', -⟩ <;> rw [hm] at hm' <;>
        cases hm'
    | flushing hm' => rcases hm with hm | hm <;> rw [hm] at hm' <;> cases hm'
    | dropping _ hg => exact hg

theorem Kept.drop (h : s.Kept) : (step reg s .drop).Kept := by
  simp only [step]
  split
  · rename_i hm
    have hmoves := Store.step_moves reg allCounters h.wf (.dropCapture s.captureID)
    refine h.storeStep reg (.dropCapture s.captureID) nofun nofun rfl rfl rfl
      (fun _ _ hg _ _ _ _ => hg) ?_
    rcases h.of_dropping (.inl hm) with ⟨hid, hrow⟩ | ⟨g, hown, hg⟩
    · exact .live (.inr (.inr (.inr (.inl rfl)))) hid hrow
    · refine .pcap g ⟨hown.live, hown.id, hown.begun,
        hown.wf.step reg (.dropCapture s.captureID), hown.row⟩ (.dropping (.inr rfl) fun hlost => ?_)
      obtain ⟨hcalm, hstored⟩ := hg hlost
      obtain ⟨hcalm', hsame⟩ := hmoves.calm nofun hcalm
      exact ⟨hcalm', hstored.of_sameRows hsame⟩
  · exact h

/-- The rows of a table after a stamp. -/
theorem lookup_stamp {t : CaptureTable} {now : Int} {complete : Bool} {c : Int} {r : CaptureRow}
    (hl : (t.stamp id now complete).rows.lookup c = some r) :
    ∃ r₀, t.rows.lookup c = some r₀ ∧ r₀.kind = r.kind
      ∧ (∀ source fm, r₀.isPcap source fm = r.isPcap source fm) ∧ (c ≠ id → r₀ = r) := by
  have hl : (KeyedMap.adjust t.rows id fun r : CaptureRow =>
    { r with endedAt := some now, complete := complete }).lookup c = some r := hl
  rw [KeyedMap.lookup_adjust] at hl
  split at hl
  · rename_i hc
    obtain ⟨r₀, hr₀, rfl⟩ := Option.map_eq_some_iff.mp hl
    exact ⟨r₀, hr₀, rfl, fun _ _ => rfl, fun hne => absurd hc hne⟩
  · exact ⟨r, hl, rfl, fun _ _ => rfl, fun _ => rfl⟩

theorem lookup_stamp_self {t : CaptureTable} {now : Int} {complete : Bool} {r : CaptureRow}
    (hl : (t.stamp id now complete).rows.lookup id = some r) :
    ∃ r₀, t.rows.lookup id = some r₀ ∧ r = { r₀ with endedAt := some now, complete := complete } := by
  have hl : (KeyedMap.adjust t.rows id fun r : CaptureRow =>
    { r with endedAt := some now, complete := complete }).lookup id = some r := hl
  rw [KeyedMap.lookup_adjust, if_pos rfl] at hl
  obtain ⟨r₀, hr₀, rfl⟩ := Option.map_eq_some_iff.mp hl
  exact ⟨r₀, hr₀, rfl⟩

theorem mem_stamp {t : CaptureTable} {now : Int} {complete : Bool} {c : Int}
    (h : c ∈ t.rows.keys) : c ∈ (t.stamp id now complete).rows.keys := by
  obtain ⟨r, hl⟩ := (KeyedMap.mem_keys_iff _ _).mp h
  rw [KeyedMap.mem_keys_iff]
  unfold CaptureTable.stamp
  dsimp only
  rw [KeyedMap.lookup_adjust]
  split
  · exact ⟨_, by rw [hl]; rfl⟩
  · exact ⟨r, hl⟩

theorem Kept.stamp (h : s.Kept) (now : Int) (ok : Bool) : (step reg s (.stamp now ok)).Kept := by
  simp only [step]
  split
  · rename_i hm
    have hdone := h.of_dropping (.inr hm)
    have hsession : ∀ {t : CaptureTable}, (∀ r, t.rows.lookup s.captureID = some r →
        ∃ r₀, s.captures.rows.lookup s.captureID = some r₀ ∧ r₀.kind = r.kind) →
        Session { s with captures := t, main := .finished } := by
      intro t ht
      rcases hdone with ⟨hid, hrow⟩ | ⟨g, hown, hg⟩
      · refine .live (.inr (.inr (.inr (.inr rfl)))) hid fun r hl => ?_
        obtain ⟨r₀, hr₀, hk⟩ := ht r hl
        exact hk ▸ hrow r₀ hr₀
      · refine .afterwards rfl hown.live hown.id fun g' hg' hlost => ?_
        have hg' : s.begun s.captureID = some g' := hg'
        rw [hown.begun, Option.some.injEq] at hg'
        exact (hg (hg' ▸ hlost)).1
    cases ok with
    | false => exact ⟨h.wf, h.others, h.knownNodes, h.knownEdges,
        hsession fun r hl => ⟨r, hl, rfl⟩, h.stamped, h.cached⟩
    | true =>
      refine ⟨h.wf, h.others, fun k hk => mem_stamp (h.knownNodes k hk),
        fun k hk => mem_stamp (h.knownEdges k hk), hsession fun r hl => ?_, ?_, ?_⟩
      · obtain ⟨r₀, hr₀, hk, -⟩ := lookup_stamp hl
        exact ⟨r₀, hr₀, hk⟩
      · intro c r hl hcomplete
        by_cases hc : c = s.captureID
        · obtain ⟨r₀, -, hr₀⟩ := lookup_stamp_self (hc ▸ hl)
          rw [hr₀]
          nofun
        · obtain ⟨r₀, hr₀, -, -, hsame⟩ := lookup_stamp hl
          rw [← hsame hc] at hcomplete ⊢
          exact h.stamped c r₀ hr₀ hcomplete
      · intro c r hl hkind hcomplete
        obtain ⟨r₀, hr₀, hk, hpcap, hsame⟩ := lookup_stamp hl
        by_cases hc : c = s.captureID
        · subst hc
          rcases hdone with ⟨hid, hrow⟩ | ⟨g, hown, hg⟩
          · exact absurd (hk.trans hkind) (hrow r₀ hr₀)
          · obtain ⟨r', hr', hkey, -⟩ := hown.row
            rw [hr₀, Option.some.injEq] at hr'
            refine ⟨g, hown.begun, ?_, fun hlost => (hg hlost).2⟩
            rw [← hpcap, hr']
            exact hkey
        · rw [← hsame hc] at hcomplete hkind ⊢
          exact h.cached c r₀ hr₀ hkind hcomplete
  · exact h

/-! ### The database is pruned -/

/-- Deleting captures that have ended, and rows of captures that are not there. -/
theorem Kept.prune (h : s.Kept) {t : CaptureTable} {db : DB} {retention : Retention}
    (hsub : ∀ id r, t.rows.lookup id = some r → s.captures.rows.lookup id = some r)
    (hstays : ∀ id r, s.captures.rows.lookup id = some r → r.endedAt = none →
      t.rows.lookup id = some r)
    (hrows : ∀ id ∈ t.rows.keys, Tables.SameRows id s.tables ({ s.store with db := db }.tables allCounters))
    (hnodes : ∀ k, counters NodeRow.load db.nodes k ≠ none → k.captureID ∈ t.rows.keys)
    (hedges : ∀ k, counters EdgeRow.counters db.edges k ≠ none → k.captureID ∈ t.rows.keys) :
    Kept { s with captures := t, store := { s.store with db := db }, retention := retention } where
  wf := h.wf.of_eq rfl h.wf.batch
  others id hid := by
    obtain ⟨hn, he, hb⟩ := h.others id hid
    exact ⟨⟨hn.dirty, hn.batch⟩, ⟨he.dirty, he.batch⟩, ⟨hb.deltas, hb.batch⟩⟩
  knownNodes := hnodes
  knownEdges := hedges
  session := by
    cases h.session with
    | none hm hid hlive hbare =>
      exact .none hm hid hlive fun id => ⟨(hbare id).nodes, (hbare id).edges⟩
    | live hm hid hrow => exact .live hm hid fun r hl => hrow r (hsub _ r hl)
    | afterwards hm hlive hid hcalm =>
      refine .afterwards hm hlive hid fun g hg hlost => ?_
      obtain ⟨hn, he, hb⟩ := hcalm g hg hlost
      exact ⟨⟨hn.dirty, hn.batch⟩, ⟨he.dirty, he.batch⟩, ⟨hb.deltas, hb.batch⟩⟩
    | pcap g hown hstage =>
      obtain ⟨r, hl, hkey, hended, hopen⟩ := hown.row
      have hl' := hstays _ r hl hended
      have hsame := hrows _ ((KeyedMap.mem_keys_iff _ _).mpr ⟨r, hl'⟩)
      refine .pcap g ⟨hown.live, hown.id, hown.begun, hown.wf.of_eq rfl hown.wf.batch,
        r, hl', hkey, hended, hopen⟩ ?_
      cases hstage with
      | filing rest hm hg =>
        refine .filing rest hm fun hlost => ?_
        obtain ⟨old, new, hF, heq⟩ := hg hlost
        exact ⟨old, new, hF.sameRows hsame, heq⟩
      | flushing hm hg =>
        refine .flushing hm fun hlost => ?_
        obtain ⟨old, new, hF, heq, hnew⟩ := hg hlost
        exact ⟨old, new, hF.sameRows hsame, heq, hnew⟩
      | dropping hm hg =>
        refine .dropping hm fun hlost => ?_
        obtain ⟨⟨hn, he, hb⟩, hstored⟩ := hg hlost
        exact ⟨⟨⟨hn.dirty, hn.batch⟩, ⟨he.dirty, he.batch⟩, ⟨hb.deltas, hb.batch⟩⟩,
          hstored.of_sameRows hsame⟩
  stamped id r hl := h.stamped id r (hsub id r hl)
  cached id r hl hkind hcomplete := by
    obtain ⟨g, hg, hpcap, hstored⟩ := h.cached id r (hsub id r hl) hkind hcomplete
    exact ⟨g, hg, hpcap, fun hlost => (hstored hlost).of_sameRows
      (hrows id ((KeyedMap.mem_keys_iff _ _).mpr ⟨r, hl⟩))⟩

theorem counters_filterKey {κ ν M : Type} [DecidableEq κ] (f : ν → M) (p : κ → Bool)
    (m : KeyedMap κ ν) (k : κ) :
    counters f (KeyedMap.filterKey p m) k = if p k then counters f m k else none := by
  unfold counters
  rw [KeyedMap.lookup_filterKey]
  split <;> rfl

theorem lookup_expire {t : CaptureTable} {cutoff : Int} {c : Int} {r : CaptureRow} :
    (t.expire cutoff).rows.lookup c = some r ↔ t.rows.lookup c = some r ∧ r.expired cutoff = false := by
  show (KeyedMap.filterKey _ t.rows).lookup c = some r ↔ _
  rw [KeyedMap.lookup_filterKey]
  constructor
  · intro hl
    split at hl
    · rename_i hkeep
      rw [hl] at hkeep
      exact ⟨hl, (Bool.not_eq_true' _).mp hkeep⟩
    · cases hl
  · rintro ⟨hl, hkeep⟩
    rw [if_pos]
    · exact hl
    · rw [hl]
      exact (Bool.not_eq_true' _).mpr hkeep

theorem Kept.expire (h : s.Kept) (cutoff : Int) (ok : Bool) :
    (step reg s (.expire cutoff ok)).Kept := by
  simp only [step]
  split
  · split
    · refine h.prune (fun id r hl => (lookup_expire.mp hl).1) (fun id r hl hended => ?_)
        (fun id hid => ?_) (fun k hk => ?_) (fun k hk => ?_)
      · refine lookup_expire.mpr ⟨hl, ?_⟩
        unfold CaptureRow.expired
        rw [hended]
        rfl
      · have hin : ∀ c, c = id → decide (c ∈ (s.captures.expire cutoff).rows.keys) = true :=
          fun c hc => decide_eq_true (hc ▸ hid)
        exact ⟨fun k hk => (counters_filterKey ..).trans (if_pos (hin _ hk)),
          fun k hk => (counters_filterKey ..).trans (if_pos (hin _ hk)), fun _ _ => rfl⟩
      · by_contra hnot
        exact hk ((counters_filterKey ..).trans (if_neg fun hd => hnot (of_decide_eq_true hd)))
      · by_contra hnot
        exact hk ((counters_filterKey ..).trans (if_neg fun hd => hnot (of_decide_eq_true hd)))
    · exact h
  · exact h

theorem Kept.sweep (h : s.Kept) (ok : Bool) : (step reg s (.sweep ok)).Kept := by
  have hkeep : ∀ {db : DB} {retention : Retention}, db.nodes = s.store.db.nodes →
      db.edges = s.store.db.edges →
      (∀ id ∈ s.captures.rows.keys, ∀ k : BucketKey, k.captureID = id →
        counters BucketRow.counters db.flowBuckets k
          = counters BucketRow.counters s.store.db.flowBuckets k) →
      Kept { s with store := { s.store with db := db }, retention := retention } := by
    intro db retention hn he hb
    refine h.prune (fun _ _ hl => hl) (fun _ _ hl _ => hl) (fun id hid => ?_) (fun k hk => ?_)
      (fun k hk => ?_)
    · exact ⟨fun k _ => congrArg (counters NodeRow.load · k) hn,
        fun k _ => congrArg (counters EdgeRow.counters · k) he, hb id hid⟩
    · rw [hn] at hk
      exact h.knownNodes k hk
    · rw [he] at hk
      exact h.knownEdges k hk
  simp only [step]
  split
  · exact h
  · cases ok with
    | false => exact hkeep rfl rfl fun _ _ _ _ => rfl
    | true =>
      refine hkeep rfl rfl fun id hid k hk => ?_
      have hin : decide (k.captureID ∈ s.captures.rows.keys) = true := decide_eq_true (hk ▸ hid)
      exact (counters_filterKey ..).trans (if_pos hin)
  · cases ok <;> exact hkeep rfl rfl fun _ _ _ _ => rfl

/-- A new process has nothing in memory. -/
theorem calm_reopened (bucketSecs : Int) (db : DB) :
    ({ openStore bucketSecs with db := db }.tables allCounters).Calm id :=
  ⟨⟨fun _ _ => rfl, fun _ _ => rfl⟩, ⟨fun _ _ => rfl, fun _ _ => rfl⟩,
    ⟨fun _ _ => rfl, fun _ _ => rfl⟩⟩

theorem Kept.reopen (h : s.Kept) (bucketSecs : Int) : (s.reopen bucketSecs).Kept where
  wf := (Store.wf_init _).of_eq rfl Store.protoKeyed_empty
  others _ _ := calm_reopened _ _
  knownNodes := h.knownNodes
  knownEdges := h.knownEdges
  session := .none (.inl rfl) rfl rfl fun _ => ⟨fun _ _ => rfl, fun _ _ => rfl⟩
  stamped := h.stamped
  cached := h.cached

theorem kept_start (bucketSecs : Int) : (start bucketSecs).Kept where
  wf := Store.wf_init bucketSecs
  others _ _ := calm_reopened bucketSecs emptyDB
  knownNodes _ hk := absurd rfl hk
  knownEdges _ hk := absurd rfl hk
  session := .none (.inl rfl) rfl rfl fun _ => ⟨fun _ _ => rfl, fun _ _ => rfl⟩
  stamped _ _ hl := nomatch hl
  cached _ _ hl := nomatch hl

variable (reg) in
theorem Kept.step (h : s.Kept) (e : Event) : (step reg s e).Kept := by
  cases e with
  | restart bucketSecs => exact h.reopen bucketSecs
  | beginPcap source fm frames full now =>
    simp only [CaptureStore.step]
    split
    · rename_i hm
      split
      · rename_i hhash
        exact h.beginPcap hm source hhash frames full now
      · exact h.unrecorded hm
    · exact h
  | beginLive kind source now =>
    simp only [CaptureStore.step]
    split
    · rename_i hm
      split
      · rename_i hkind
        exact h.beginLive hm hkind source now
      · exact h
    · exact h
  | ingest sampled => exact h.ingest sampled
  | index => exact h.index
  | capture ev => exact h.capture ev
  | captureIndex ev => exact h.captureIndex ev
  | endCapture => exact h.endCapture
  | taken => exact h.taken
  | replied => exact h.replied
  | drop => exact h.drop
  | stamp now ok => exact h.stamp now ok
  | close =>
    simp only [CaptureStore.step]
    split
    · rename_i hm
      exact h.writerStep (fun _ h => by cases h) (fun _ h => by cases h) (fun _ h => by cases h)
        fun hm' => by rw [hm] at hm'; cases hm'
    · exact h
  | writer a =>
    -- in the middle of a drain the writer does nothing but drain
    cases a with
    | receive =>
      refine h.writerStep (fun _ h => by cases h) (fun _ h => by cases h) (fun _ h => by cases h)
        fun _ hp => .inl ?_
      simp only [Store.step, hp]
    | tick =>
      refine h.writerStep (fun _ h => by cases h) (fun _ h => by cases h) (fun _ h => by cases h)
        fun _ hp => .inl ?_
      simp only [Store.step, hp]
    | drain =>
      exact h.writerStep (fun _ h => by cases h) (fun _ h => by cases h) (fun _ h => by cases h)
        fun _ hp => Store.drain_or_snapshot reg hp
    | commit ok => exact h.commit ok
    | record ev | send ev | flushReq | done | dropCapture id => exact h
  | expire cutoff ok => exact h.expire cutoff ok
  | sweep ok => exact h.sweep ok

theorem kept_run (reg : Registry) (bucketSecs : Int) (l : List Event) :
    (run reg bucketSecs l).Kept :=
  Run.invariant (kept_start bucketSecs) (fun _ e h _ => h.step reg e)
    (Run.guarded_of_forall (p := fun _ => True) _ fun _ _ => trivial)

/-! ## What a hit means -/

theorem findCompletePcap_row {t : CaptureTable} {source : String} {fm : FileMeta}
    (h : t.findCompletePcap source fm = some id) :
    ∃ r, t.rows.lookup id = some r ∧ r.isPcap source fm = true ∧ r.complete = true := by
  have hmem := List.max?_mem h
  obtain ⟨e, he, rfl⟩ := List.mem_map.mp hmem
  obtain ⟨he, hrow⟩ := List.mem_filter.mp he
  rw [Bool.and_eq_true] at hrow
  exact ⟨e.2, (KeyedMap.mem_entries_iff _ _ _).mp he, hrow.1, hrow.2⟩

/-- What a row that stands for one file says about another it stands for. -/
theorem isPcap_iff {r : CaptureRow} {source : String} {fm : FileMeta} :
    r.isPcap source fm = true ↔ r.kind = .pcap ∧ r.source = source
      ∧ r.fileSize = some fm.size ∧ r.fileHash = some fm.hash := by
  unfold CaptureRow.isPcap
  simp only [Bool.and_eq_true, decide_eq_true_eq, and_assoc]

/-- In order, a reader returns all its packets, whatever the rounding of the offset. -/
theorem packets_whole {g : Ingest} (h : (loadPackets g.frames).Sorted)
    (hfull : (loadPackets g.frames).getDuration ≤ g.full.duration) :
    g.packets = (loadPackets g.frames).packets.map PacketWithTime.replayed :=
  congrArg (List.map PacketWithTime.replayed) (h.getPacketsUpToTime_all hfull)

/--
**A cached pcap is what its reader returned.** The capture found for a file was begun for a
file of that name, size and hash, and unless a transaction failed while it lasted its rows
are the totals over the packets the reader returned of that file: over all of them that
decoded, where no timestamp goes back.
-/
theorem findCompletePcap_stored (reg : Registry) (bucketSecs : Int) (l : List Event)
    {source : String} {fm : FileMeta}
    (h : (run reg bucketSecs l).captures.findCompletePcap source fm = some id) :
    ∃ g, (run reg bucketSecs l).begun id = some g ∧ g.source = source
      ∧ g.file.size = fm.size ∧ g.file.hash = fm.hash
      ∧ (g.lost = false → Stored id g (run reg bucketSecs l).store.db)
      ∧ ((loadPackets g.frames).Sorted → (loadPackets g.frames).getDuration ≤ g.full.duration →
        g.packets = (loadPackets g.frames).packets.map PacketWithTime.replayed) := by
  obtain ⟨r, hl, hpcap, hcomplete⟩ := findCompletePcap_row h
  obtain ⟨hkind, hsource, hsize, hhash⟩ := isPcap_iff.mp hpcap
  obtain ⟨g, hg, hkey, hstored⟩ := (kept_run reg bucketSecs l).cached id r hl hkind hcomplete
  obtain ⟨-, hsource', hsize', hhash'⟩ := isPcap_iff.mp hkey
  refine ⟨g, hg, hsource'.symm.trans hsource, ?_, ?_, hstored, packets_whole⟩
  · exact Option.some.inj (hsize'.symm.trans hsize)
  · exact Option.some.inj (hhash'.symm.trans hhash)

/-- Two packets, the second a second after the first. -/
def twoPcapFrames : List (Option PacketInfo × Int) :=
  [(some { srcIP := "10.0.0.1", dstIP := "10.0.0.2", length := 60 }, 5000000000),
    (some { srcIP := "10.0.0.2", dstIP := "10.0.0.1", length := 90 }, 6000000000)]

/-- A pcap of two packets, from its session to the stamp. -/
def onePcap : List Event :=
  [.beginPcap "one.pcap" { size := 100, hash := "5f" } twoPcapFrames ⟨2, 2000000000⟩ 0,
    .ingest false, .ingest false, .endCapture, .taken, .writer .drain, .writer (.commit true),
    .replied, .drop, .stamp 9 true]

theorem findCompletePcap_stored_onePcap :
    ∃ g, (run (Registry.ofList []) 1 onePcap).begun 1 = some g ∧ g.source = "one.pcap"
      ∧ g.file.size = 100 ∧ g.file.hash = "5f"
      ∧ (g.lost = false → Stored 1 g (run (Registry.ofList []) 1 onePcap).store.db)
      ∧ ((loadPackets g.frames).Sorted → (loadPackets g.frames).getDuration ≤ g.full.duration →
        g.packets = (loadPackets g.frames).packets.map PacketWithTime.replayed) :=
  have hit : (run (Registry.ofList []) 1 onePcap).captures.findCompletePcap "one.pcap"
      { size := 100, hash := "5f" } = some 1 := by decide +kernel
  findCompletePcap_stored (Registry.ofList []) 1 onePcap hit

/-! ## Sessions cut short -/

/-- The row of a pcap session that is not going on any more and was never stamped. -/
structure CutShort (id : Int) (row : CaptureRow) (s : CaptureStore) : Prop where
  row : s.captures.rows.lookup id = some row
  gone : id ≠ s.captureID ∨ s.main = .finished

/-- What happens inside a session, or to no row at all. -/
def Event.Inside : Event → Prop
  | .restart _ | .beginPcap .. | .beginLive .. | .stamp .. | .expire .. => False
  | _ => True

theorem step_inside {e : Event} (he : e.Inside) :
    (CaptureStore.step reg s e).captures = s.captures
      ∧ (CaptureStore.step reg s e).captureID = s.captureID
      ∧ (s.main = .finished → (CaptureStore.step reg s e).main = .finished) := by
  have hstay : ∀ {m : Main}, s.main = m → m ≠ .finished → ∀ {m' : Main}, s.main = .finished →
      m' = .finished := fun hm hne _ hfin => absurd (hm.symm.trans hfin) hne
  cases e with
  | restart | beginPcap | beginLive | stamp | expire => exact he.elim
  | ingest | index | endCapture | drop =>
    simp only [CaptureStore.step]
    split
    all_goals first
      | exact ⟨rfl, rfl, fun hfin => hfin⟩
      | (rename_i hm; exact ⟨rfl, rfl, hstay hm nofun⟩)
      | (rename_i hm; split <;> exact ⟨rfl, rfl, hstay hm nofun⟩)
  | taken | replied =>
    simp only [CaptureStore.step]
    split
    · rename_i hm _
      exact ⟨rfl, rfl, hstay hm nofun⟩
    · exact ⟨rfl, rfl, fun hfin => hfin⟩
  | capture | captureIndex | close =>
    simp only [CaptureStore.step]
    split <;> exact ⟨rfl, rfl, fun hfin => hfin⟩
  | writer a =>
    cases a with
    | commit ok =>
      show (s.commit reg ok).captures = _ ∧ (s.commit reg ok).captureID = _
        ∧ (_ → (s.commit reg ok).main = _)
      unfold CaptureStore.commit
      split <;> exact ⟨rfl, rfl, fun hfin => hfin⟩
    | _ => exact ⟨rfl, rfl, fun hfin => hfin⟩
  | sweep ok =>
    simp only [CaptureStore.step]
    split <;> exact ⟨rfl, rfl, fun hfin => hfin⟩

variable {row : CaptureRow}

/-- Any other session gets another row. -/
theorem CutShort.begins (hc : CutShort id row s) {r : CaptureRow} {id' : Int} {t : CaptureTable}
    (hins : s.captures.insert r = some (id', t)) : t.rows.lookup id = some row ∧ id ≠ id' := by
  obtain ⟨hid, hrows⟩ := insert_eq hins
  have hne : id ≠ id' := by
    rintro rfl
    have hfresh := s.captures.lookup_fresh
    rw [← hid, hc.row] at hfresh
    cases hfresh
  rw [hrows, KeyedMap.lookup_insert_eq, if_neg hne]
  exact ⟨hc.row, hne⟩

theorem CutShort.step (hc : CutShort id row s) (hended : row.endedAt = none) (e : Event) :
    CutShort id row (CaptureStore.step reg s e) := by
  by_cases he : e.Inside
  · obtain ⟨hcaptures, hid, hmain⟩ : (CaptureStore.step reg s e).captures = s.captures
        ∧ (CaptureStore.step reg s e).captureID = s.captureID
        ∧ (s.main = .finished → (CaptureStore.step reg s e).main = .finished) := step_inside he
    refine ⟨by rw [hcaptures]; exact hc.row, ?_⟩
    rcases hc.gone with hne | hfin
    · exact .inl (by rw [hid]; exact hne)
    · exact .inr (hmain hfin)
  · have hunrecorded : CutShort id row { s with main := .finished } := ⟨hc.row, .inr rfl⟩
    cases e with
    | restart bucketSecs =>
      have := s.captures.positive id row hc.row
      exact ⟨hc.row, .inl (by show id ≠ 0; omega)⟩
    | beginPcap source fm frames full now =>
      simp only [CaptureStore.step]
      split
      · split
        · unfold CaptureStore.beginPcap
          split
          · rename_i hins
            exact ⟨(hc.begins hins).1, .inl (hc.begins hins).2⟩
          · exact hunrecorded
        · exact hunrecorded
      · exact hc
    | beginLive kind source now =>
      simp only [CaptureStore.step]
      split
      · split
        · unfold CaptureStore.beginLive
          split
          · rename_i hins
            exact ⟨(hc.begins hins).1, .inl (hc.begins hins).2⟩
          · exact hunrecorded
        · exact hc
      · exact hc
    | stamp now ok =>
      simp only [CaptureStore.step]
      split
      · rename_i hm
        have hne : id ≠ s.captureID := hc.gone.resolve_right fun hfin => by
          rw [hm] at hfin
          cases hfin
        cases ok with
        | false => exact ⟨hc.row, .inr rfl⟩
        | true =>
          refine ⟨?_, .inr rfl⟩
          show (KeyedMap.adjust s.captures.rows _ _).lookup id = some row
          rw [KeyedMap.lookup_adjust, if_neg hne]
          exact hc.row
      · exact hc
    | expire cutoff ok =>
      simp only [CaptureStore.step]
      split
      · split
        · refine ⟨lookup_expire.mpr ⟨hc.row, ?_⟩, hc.gone⟩
          unfold CaptureRow.expired
          rw [hended]
          rfl
        · exact hc
      · exact hc
    | _ => exact absurd trivial he

/-- A row that clashes is refused by the index. -/
theorem insert_clash {t : CaptureTable} {r r' : CaptureRow} (hl : t.rows.lookup id = some r)
    (hc : r.Clashes r') : t.insert r' = none := by
  unfold CaptureTable.insert
  exact dif_pos ⟨⟨id, r⟩, (KeyedMap.mem_entries_iff _ _ _).mpr hl, hc⟩

theorem clashes_of_isPcap {r r' : CaptureRow} {source : String} {fm : FileMeta}
    (h : r.isPcap source fm = true) (h' : r'.isPcap source fm = true) : r.Clashes r' := by
  obtain ⟨hkind, hsource, hsize, hhash⟩ := isPcap_iff.mp h
  obtain ⟨hkind', hsource', hsize', hhash'⟩ := isPcap_iff.mp h'
  exact ⟨hkind, hkind', hsource.trans hsource'.symm, ⟨by rw [hsize]; rfl, hsize.trans hsize'.symm⟩,
    by rw [hhash]; rfl, hhash.trans hhash'.symm⟩

/-- No session for the file is recorded in this state. -/
def Refuses (reg : Registry) (source : String) (fm : FileMeta) (s : CaptureStore) : Prop :=
  ∀ frames full now, s.main = .opened →
    CaptureStore.step reg s (.beginPcap source fm frames full now) = { s with main := .finished }

/--
**An ingest cut short is never made good.** Once the row of a pcap session that was
never stamped is nobody's any more, it stays as it is whatever happens, the file is
never found complete, and no later session for it is recorded.
-/
theorem cutShort_forever (reg : Registry) (bucketSecs : Int) (l l' : List Event) {source : String}
    {fm : FileMeta} (hc : CutShort id row (run reg bucketSecs l)) (hended : row.endedAt = none)
    (hpcap : row.isPcap source fm = true) :
    (run reg bucketSecs (l ++ l')).captures.rows.lookup id = some row
      ∧ (run reg bucketSecs (l ++ l')).captures.findCompletePcap source fm = none
      ∧ Refuses reg source fm (run reg bucketSecs (l ++ l')) := by
  have hlater : CutShort id row (run reg bucketSecs (l ++ l')) := by
    unfold run
    rw [Run.exec_append]
    exact Run.invariant hc (fun _ e h _ => h.step hended e)
      (Run.guarded_of_forall (p := fun _ => True) _ fun _ _ => trivial)
  have hkept := kept_run reg bucketSecs (l ++ l')
  generalize run reg bucketSecs (l ++ l') = s at hlater hkept
  refine ⟨hlater.row, ?_, fun frames full now hm => ?_⟩
  · rw [Option.eq_none_iff_forall_ne_some]
    intro j hj
    obtain ⟨r, hl, hkey, hcomplete⟩ := findCompletePcap_row hj
    have hij := s.captures.unique id j row r hlater.row hl (clashes_of_isPcap hpcap hkey)
    subst hij
    rw [hlater.row, Option.some.injEq] at hl
    subst hl
    exact hkept.stamped id row hlater.row hcomplete hended
  · simp only [CaptureStore.step, hm]
    split
    · rename_i hhash
      have hrefused := insert_clash hlater.row
        (clashes_of_isPcap hpcap (opened_isPcap source hhash now).1)
      unfold CaptureStore.beginPcap
      rw [hrefused]
    · rfl

/-- The process dies right after the session began. -/
def cutPcap : List Event :=
  [.beginPcap "one.pcap" { size := 100, hash := "5f" } twoPcapFrames ⟨2, 2000000000⟩ 0, .restart 1]

/-- The next process meets the same file. -/
theorem cutShort_forever_onePcap :
    (run (Registry.ofList []) 1 (cutPcap ++ onePcap)).captures.rows.lookup 1
        = some (.opened .pcap "one.pcap" { size := 100, hash := "5f" } 0)
      ∧ (run (Registry.ofList []) 1 (cutPcap ++ onePcap)).captures.findCompletePcap
          "one.pcap" { size := 100, hash := "5f" } = none
      ∧ Refuses (Registry.ofList []) "one.pcap" { size := 100, hash := "5f" }
          (run (Registry.ofList []) 1 (cutPcap ++ onePcap)) :=
  cutShort_forever (Registry.ofList []) 1 cutPcap onePcap
    ⟨rfl, .inl (by decide)⟩ rfl rfl

end CaptureStore

end Etherchimp
