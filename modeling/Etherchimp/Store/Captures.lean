import Etherchimp.Replay.Reader

/-!
# Capture sessions

Every ingest is a row of `captures`: `BeginCapture` inserts it, `EndCapture` flushes
what was recorded, forgets the capture's aggregates and stamps the row, and the
retention loop deletes rows whose stamp is old, their nodes and edges with them. A pcap
that was ingested to its end is found again by its name, its size and the hash of its
first MiB, and is then loaded instead of parsed. What is ingested of a pcap is what its
reader returns up to its duration and a second more.

The key of a row is the one after the largest in use, so the key of a deleted row may
come back. `flow_buckets` and `packets` do not cascade; two later statements sweep them.

The process may die between any two steps. What it leaves is the database.
-/

namespace Etherchimp

inductive CaptureKind
  | live
  | ssh
  | pcap
  | synth
  deriving DecidableEq

/-- What identifies a pcap file; the modification time is stored but no part of the key. -/
structure FileMeta where
  size : Int := 0
  mtime : Int := 0
  hash : String := ""

/-- A row of `captures`; an option is a column that may be null. -/
structure CaptureRow where
  kind : CaptureKind
  source : String
  fileHash : Option String := none
  fileSize : Option Int := none
  fileMtime : Option Int := none
  startedAt : Int
  endedAt : Option Int := none
  complete : Bool := false

namespace CaptureRow

/-- Rows the index `cap_pcap_key` keeps apart; it is on pcaps only, and nulls never meet. -/
def Clashes (r r' : CaptureRow) : Prop :=
  r.kind = .pcap ∧ r'.kind = .pcap ∧ r.source = r'.source
    ∧ (r.fileSize.isSome ∧ r.fileSize = r'.fileSize) ∧ r.fileHash.isSome ∧ r.fileHash = r'.fileHash

instance (r r' : CaptureRow) : Decidable (r.Clashes r') := inferInstanceAs (Decidable (_ ∧ _))

/-- A pcap of this name, size and hash. -/
def isPcap (r : CaptureRow) (source : String) (fm : FileMeta) : Bool :=
  r.kind = .pcap && r.source = source && r.fileSize = some fm.size && r.fileHash = some fm.hash

/-- `ended_at IS NOT NULL AND ended_at < ?` -/
def expired (r : CaptureRow) (cutoff : Int) : Bool := r.endedAt.any (· < cutoff)

/-- The row `BeginCapture` inserts; without a hash the file columns stay null. -/
def opened (kind : CaptureKind) (source : String) (fm : FileMeta) (now : Int) : CaptureRow :=
  if fm.hash ≠ "" then
    { kind := kind, source := source, startedAt := now
      fileHash := some fm.hash, fileSize := some fm.size, fileMtime := some fm.mtime }
  else { kind := kind, source := source, startedAt := now }

end CaptureRow

/-- The table `captures` under its primary key, with its unique index. -/
structure CaptureTable where
  rows : KeyedMap Int CaptureRow
  positive : ∀ id r, rows.lookup id = some r → 0 < id
  unique : ∀ i j r r', rows.lookup i = some r → rows.lookup j = some r' → r.Clashes r' → i = j

namespace CaptureTable

def empty : CaptureTable where
  rows := ∅
  positive _ _ h := nomatch h
  unique _ _ _ _ h := nomatch h

/-- The largest key in use, 0 in an empty table. -/
def maxID (t : CaptureTable) : Int := t.rows.keys.foldr max 0

theorem le_maxID (t : CaptureTable) {id : Int} (h : id ∈ t.rows.keys) : id ≤ t.maxID := by
  unfold maxID
  generalize t.rows.keys = ids at h
  induction ids with
  | nil => cases h
  | cons a l ih =>
    rw [List.foldr_cons]
    rcases List.mem_cons.mp h with rfl | h
    · exact le_max_left _ _
    · exact (ih h).trans (le_max_right _ _)

theorem maxID_nonneg (t : CaptureTable) : 0 ≤ t.maxID := by
  unfold maxID
  generalize t.rows.keys = ids
  induction ids with
  | nil => exact le_refl 0
  | cons a l ih => exact ih.trans (le_max_right _ _)

theorem lookup_fresh (t : CaptureTable) : t.rows.lookup (t.maxID + 1) = none := by
  rw [AList.lookup_eq_none, AList.mem_keys]
  intro h
  have := t.le_maxID h
  omega

/-- `INSERT INTO captures`: the row gets the key after the largest, or the index refuses it. -/
def insert (t : CaptureTable) (row : CaptureRow) : Option (Int × CaptureTable) :=
  if h : ∃ e ∈ t.rows.entries, e.2.Clashes row then none
  else some (t.maxID + 1,
    { rows := t.rows.insert (t.maxID + 1) row
      positive := by
        intro id r hl
        rw [KeyedMap.lookup_insert_eq] at hl
        split at hl
        · have := t.maxID_nonneg
          omega
        · exact t.positive id r hl
      unique := by
        have hnone : ∀ {i : Int} {r : CaptureRow}, t.rows.lookup i = some r → ¬ r.Clashes row :=
          fun hl hc => h ⟨_, (KeyedMap.mem_entries_iff t.rows _ _).mpr hl, hc⟩
        intro i j r r' hi hj hc
        rw [KeyedMap.lookup_insert_eq] at hi hj
        split at hi <;> split at hj
        · rename_i hi' hj'
          rw [hi', hj']
        · -- the relation is symmetric
          cases hi
          obtain ⟨hk, hk', hs, ⟨hz, hz'⟩, hh, hh'⟩ := hc
          exact absurd ⟨hk', hk, hs.symm, ⟨hz' ▸ hz, hz'.symm⟩, hh' ▸ hh, hh'.symm⟩ (hnone hj)
        · cases hj
          exact absurd hc (hnone hi)
        · exact t.unique i j r r' hi hj hc })

/-- `UPDATE captures SET ended_at = ?, complete = ? WHERE id = ?` -/
def stamp (t : CaptureTable) (id endedAt : Int) (complete : Bool) : CaptureTable where
  rows := KeyedMap.adjust t.rows id fun r => { r with endedAt := some endedAt, complete := complete }
  positive := by
    intro i r hl
    rw [KeyedMap.lookup_adjust] at hl
    split at hl
    · obtain ⟨r₀, hr₀, -⟩ := Option.map_eq_some_iff.mp hl
      exact t.positive i r₀ hr₀
    · exact t.positive i r hl
  unique := by
    intro i j r r' hi hj hc
    rw [KeyedMap.lookup_adjust] at hi hj
    have hrow : ∀ {i : Int} {r : CaptureRow},
        (if i = id then (t.rows.lookup i).map fun r : CaptureRow =>
            { r with endedAt := some endedAt, complete := complete }
          else t.rows.lookup i) = some r →
        ∃ r₀, t.rows.lookup i = some r₀ ∧ r₀.kind = r.kind ∧ r₀.source = r.source
          ∧ r₀.fileSize = r.fileSize ∧ r₀.fileHash = r.fileHash := by
      intro i r hl
      split at hl
      · obtain ⟨r₀, hr₀, rfl⟩ := Option.map_eq_some_iff.mp hl
        exact ⟨r₀, hr₀, rfl, rfl, rfl, rfl⟩
      · exact ⟨r, hl, rfl, rfl, rfl, rfl⟩
    obtain ⟨r₀, hr₀, hk, hs, hz, hh⟩ := hrow hi
    obtain ⟨r₁, hr₁, hk', hs', hz', hh'⟩ := hrow hj
    refine t.unique i j r₀ r₁ hr₀ hr₁ ?_
    unfold CaptureRow.Clashes
    rw [hk, hk', hs, hs', hz, hz', hh, hh']
    exact hc

/-- `DELETE FROM captures WHERE ended_at IS NOT NULL AND ended_at < ?` -/
def expire (t : CaptureTable) (cutoff : Int) : CaptureTable where
  rows := KeyedMap.filterKey (fun id => !(t.rows.lookup id).any (·.expired cutoff)) t.rows
  positive := by
    intro i r hl
    rw [KeyedMap.lookup_filterKey] at hl
    split at hl
    · exact t.positive i r hl
    · cases hl
  unique := by
    intro i j r r' hi hj hc
    rw [KeyedMap.lookup_filterKey] at hi hj
    split at hi
    · split at hj
      · exact t.unique i j r r' hi hj hc
      · cases hj
    · cases hi

/-- The newest complete capture of the file. -/
def findCompletePcap (t : CaptureTable) (source : String) (fm : FileMeta) : Option Int :=
  ((t.rows.entries.filter fun e => e.2.isPcap source fm && e.2.complete).map fun e => e.1).max?

end CaptureTable

/-- The tables that cascade lose the rows of the captures deleted. -/
def DB.cascade (db : DB) (t : CaptureTable) : DB :=
  { db with
    nodes := KeyedMap.filterKey (fun k => k.captureID ∈ t.rows.keys) db.nodes
    edges := KeyedMap.filterKey (fun k => k.captureID ∈ t.rows.keys) db.edges }

/-- `DELETE FROM flow_buckets WHERE capture_id NOT IN (SELECT id FROM captures)` -/
def DB.sweepBuckets (db : DB) (t : CaptureTable) : DB :=
  { db with
    flowBuckets := KeyedMap.filterKey (fun k => k.captureID ∈ t.rows.keys) db.flowBuckets }

/-- `DELETE FROM packets WHERE capture_id NOT IN (SELECT id FROM captures)` -/
def DB.sweepPackets (db : DB) (t : CaptureTable) : DB :=
  { db with packets := db.packets.filter fun p => p.captureID ∈ t.rows.keys }

/-- Every node and edge a transaction writes refers to a capture; otherwise it is rolled back. -/
def FlushBatch.refersTo (fb : FlushBatch) (t : CaptureTable) : Bool :=
  fb.nodes.keys.all (·.captureID ∈ t.rows.keys) && fb.edges.keys.all (·.captureID ∈ t.rows.keys)

/-! ## The process -/

/-- What a replay records of a packet: without a resolver its names are its own. -/
def PacketWithTime.replayed (p : PacketWithTime) : PacketEvent :=
  p.event 0 p.info.srcName p.info.dstName

/-- Where the goroutine is that owns the session. -/
inductive Main
  /-- The store is open and no session has begun. -/
  | opened
  /-- A pcap is replayed into the store, these packets still to come. -/
  | ingesting (rest : List PacketEvent)
  /-- `RecordPacketSync` has counted a packet and waits for room for its index row. -/
  | indexing (ev : PacketEvent) (rest : List PacketEvent)
  | capturing
  /-- `EndCapture` waits in `Flush`; `taken` once the writer has the request. -/
  | flushing (taken : Bool)
  | dropping
  | stamping
  | finished

/-- Where the retention loop is. -/
inductive Retention
  | waiting
  | sweepBuckets
  | sweepPackets

/-- What a pcap session was begun with, and whether a transaction failed while it lasted. -/
structure Ingest where
  source : String
  file : FileMeta
  /-- The frames of the file, each decoded or not, with their times. -/
  frames : List (Option PacketInfo × Int)
  /-- What the duration in seconds and one more, a floating-point number, is converted to. -/
  full : Offset
  bucketSecs : Int
  /-- The buckets there were when it began. -/
  found : KeyedMap BucketKey BucketRow
  lost : Bool := false

/-- The packets it ingests: the reader's, up to the offset that stands for all. -/
def Ingest.packets (g : Ingest) : List PacketEvent :=
  ((loadPackets g.frames).getPacketsUpToTime g.full).map PacketWithTime.replayed

structure CaptureStore where
  captures : CaptureTable
  store : Store
  main : Main
  /-- The capture recorded under, 0 when there is none. -/
  captureID : Int
  /-- The goroutines of a live session are recording. -/
  live : Bool
  retention : Retention
  /-- The session each capture stands for; the program keeps no such record. -/
  begun : Int → Option Ingest

namespace CaptureStore

/-- The first process on a new database. -/
def start (bucketSecs : Int) : CaptureStore where
  captures := .empty
  store := openStore bucketSecs
  main := .opened
  captureID := 0
  live := false
  retention := .waiting
  begun := fun _ => none

inductive Event
  /-- The process dies and another opens the database. -/
  | restart (bucketSecs : Int)
  /-- A pcap of these frames is read, and `beginCaptureSession` called for it. -/
  | beginPcap (source : String) (fm : FileMeta) (frames : List (Option PacketInfo × Int))
      (full : Offset) (now : Int)
  /-- `beginCaptureSession` for an interface, a remote one or the generator. -/
  | beginLive (kind : CaptureKind) (source : String) (now : Int)
  /-- The next packet of the pcap; `sampled` when the index takes it. -/
  | ingest (sampled : Bool)
  /-- There is room for the index row. -/
  | index
  /-- A packet of the live session, and its index row. -/
  | capture (ev : PacketEvent)
  | captureIndex (ev : PacketEvent)
  | endCapture
  /-- The writer takes the request of `Flush`, and later answers it. -/
  | taken
  | replied
  | drop
  | stamp (now : Int) (ok : Bool)
  | close
  /-- The writer goes on; what is not the writer's is ignored. -/
  | writer (a : Store.Action)
  | expire (cutoff : Int) (ok : Bool)
  | sweep (ok : Bool)

/-- `OpenStore` on what a process left behind. -/
def reopen (s : CaptureStore) (bucketSecs : Int) : CaptureStore :=
  { s with
    store := { openStore (if bucketSecs ≤ 0 then 1 else bucketSecs) with db := s.store.db }
    main := .opened
    captureID := 0
    live := false
    retention := .waiting }

def beginPcap (s : CaptureStore) (source : String) (fm : FileMeta)
    (frames : List (Option PacketInfo × Int)) (full : Offset) (now : Int) : CaptureStore :=
  match s.captures.insert (.opened .pcap source fm now) with
  | some (id, captures) =>
      let g : Ingest :=
        { source := source, file := fm, frames := frames, full := full
          bucketSecs := s.store.agg.bucketSecs, found := s.store.db.flowBuckets }
      { s with
        captures := captures
        main := .ingesting g.packets
        captureID := id
        begun := Function.update s.begun id (some g) }
  -- the session is not recorded: every later call sees capture 0
  | none => { s with main := .finished }

def beginLive (s : CaptureStore) (kind : CaptureKind) (source : String) (now : Int) :
    CaptureStore :=
  match s.captures.insert (.opened kind source {} now) with
  | some (id, captures) =>
      { s with
        captures := captures
        main := .capturing
        captureID := id
        live := true
        begun := Function.update s.begun id none }
  | none => { s with main := .finished }

/-- A packet as this session records it. -/
def filed (s : CaptureStore) (ev : PacketEvent) : PacketEvent := { ev with captureID := s.captureID }

/-- The session is remembered as one that lost a transaction, unless it is over. -/
def noteLost (s : CaptureStore) : Int → Option Ingest :=
  match s.main with
  | .finished => s.begun
  | _ => Function.update s.begun s.captureID
      ((s.begun s.captureID).map fun g => { g with lost := true })

/-- The writer's transaction ends; a row that refers to no capture undoes it as well. -/
def commit (reg : Registry) (s : CaptureStore) (ok : Bool) : CaptureStore :=
  match s.store.phase with
  | .flushing fb _ =>
      { s with
        store := Store.step reg s.store (.commit (ok && fb.refersTo s.captures))
        begun := if ok then s.begun else s.noteLost }
  | _ => s

/-- One step; an event that is not enabled changes nothing. -/
def step (reg : Registry) (s : CaptureStore) : Event → CaptureStore
  | .restart bucketSecs => s.reopen bucketSecs
  | .beginPcap source fm frames full now =>
      match s.main with
      -- without a fingerprint the session is not recorded
      | .opened => if fm.hash ≠ "" then s.beginPcap source fm frames full now
          else { s with main := .finished }
      | _ => s
  | .beginLive kind source now =>
      match s.main with
      | .opened => if kind ≠ .pcap then s.beginLive kind source now else s
      | _ => s
  | .ingest sampled =>
      match s.main with
      | .ingesting (ev :: rest) =>
          { s with
            store := Store.step reg s.store (.record (s.filed ev))
            main := if sampled then .indexing ev rest else .ingesting rest }
      | _ => s
  | .index =>
      match s.main with
      | .indexing ev rest =>
          if s.store.events.length < eventsCap then
            { s with
              store := Store.step reg s.store (.send (s.filed ev))
              main := .ingesting rest }
          else s
      | _ => s
  | .capture ev =>
      if s.live then { s with store := Store.step reg s.store (.record (s.filed ev)) } else s
  | .captureIndex ev =>
      if s.live then { s with store := Store.step reg s.store (.send (s.filed ev)) } else s
  | .endCapture =>
      match s.main with
      | .ingesting [] => { s with main := .flushing false }
      | .capturing => { s with main := .flushing false }
      | _ => s
  | .taken =>
      match s.main, s.store.phase with
      | .flushing false, .select =>
          { s with store := Store.step reg s.store .flushReq, main := .flushing true }
      | _, _ => s
  | .replied =>
      match s.main, s.store.phase with
      | .flushing true, .select => { s with main := .dropping }
      | _, _ => s
  | .drop =>
      match s.main with
      | .dropping =>
          { s with store := Store.step reg s.store (.dropCapture s.captureID), main := .stamping }
      | _ => s
  | .stamp now ok =>
      match s.main with
      | .stamping =>
          { s with
            captures := if ok then s.captures.stamp s.captureID now true else s.captures
            main := .finished }
      | _ => s
  | .close =>
      match s.main with
      | .finished => { s with store := Store.step reg s.store .done }
      | _ => s
  | .writer a =>
      match a with
      | .receive | .tick | .drain => { s with store := Store.step reg s.store a }
      | .commit ok => s.commit reg ok
      | _ => s
  | .expire cutoff ok =>
      match s.retention with
      | .waiting =>
          if ok ∧ ∃ e ∈ s.captures.rows.entries, e.2.expired cutoff then
            let captures := s.captures.expire cutoff
            { s with
              captures := captures
              store := { s.store with db := s.store.db.cascade captures }
              retention := .sweepBuckets }
          else s
      | _ => s
  | .sweep ok =>
      match s.retention with
      | .waiting => s
      -- a sweep that fails is not tried again
      | .sweepBuckets =>
          { s with
            store := { s.store with
              db := if ok then s.store.db.sweepBuckets s.captures else s.store.db }
            retention := .sweepPackets }
      | .sweepPackets =>
          { s with
            store := { s.store with
              db := if ok then s.store.db.sweepPackets s.captures else s.store.db }
            retention := .waiting }

/-- The state after some events, from a new database on. -/
def run (reg : Registry) (bucketSecs : Int) (l : List Event) : CaptureStore :=
  Run.exec (step reg) (start bucketSecs) l

end CaptureStore

end Etherchimp
