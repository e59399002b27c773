import Etherchimp.Lib.WriteBack
import Etherchimp.Store.Writer

/-!
# The writer's tables are write-back tables

Nodes and edges are absolute tables, flow buckets an additive one. Every step of
the store is one move of the three tables together: recording an event, taking a
snapshot, writing it, losing it, forgetting a capture, or nothing.
-/

namespace Etherchimp

open Tally WriteBack

def NodeRow.load (r : NodeRow) : Load := (r.packetCount, r.byteCount)

def EdgeRow.counters (r : EdgeRow) : Counters :=
  ((r.packetCount, r.byteCount), (r.fwdPackets, r.fwdBytes), (r.revPackets, r.revBytes))

def BucketRow.counters (r : BucketRow) : Counters :=
  ((r.packets, r.bytes), (r.fwdPackets, r.fwdBytes), (r.revPackets, r.revBytes))

def emptyBatch : FlushBatch where
  nodes := ∅
  edges := ∅
  buckets := ∅
  dropped := 0

/-- The batch of the open transaction. -/
def Store.batch (s : Store) : FlushBatch :=
  match s.phase with
  | .flushing fb _ => fb
  | _ => emptyBatch

/-- The three tables, the edges read through `π`. -/
@[ext] structure Tables (M : Type) where
  nodes : AbsoluteTable NodeKey Load
  edges : AbsoluteTable EdgeKey M
  buckets : DeltaTable BucketKey Counters

variable {M : Type} [AddCommMonoid M]

def Store.tables (π : Counters →+ M) (s : Store) : Tables M where
  nodes :=
    { cells := counters NodeAgg.load s.agg.nodes
      dirty := fun k => k ∈ s.agg.dirtyNodes.keys
      batch := counters NodeAgg.load s.batch.nodes
      rows := counters NodeRow.load s.db.nodes }
  edges :=
    { cells := counters (fun e => π e.counters) s.agg.edges
      dirty := fun k => k ∈ s.agg.dirtyEdges.keys
      batch := counters (fun e => π e.counters) s.batch.edges
      rows := counters (fun e => π e.counters) s.db.edges }
  buckets :=
    { deltas := counters BucketAgg.counters s.agg.buckets
      batch := counters BucketAgg.counters s.batch.buckets
      rows := counters BucketRow.counters s.db.flowBuckets }

/-! ## Moves -/

namespace Tables

variable (π : Counters →+ M) (bucketSecs : Int) (t : Tables M)

def record (ev : PacketEvent) : Tables M where
  nodes := (t.nodes.add ⟨ev.captureID, ev.src⟩ ev.load).add ⟨ev.captureID, ev.dst⟩ ev.load
  edges := t.edges.add ⟨ev.captureID, ev.edgeID⟩ (π ev.counters)
  buckets := t.buckets.add (ev.bucket bucketSecs) ev.counters

def snapshot : Tables M := ⟨t.nodes.snapshot, t.edges.snapshot, t.buckets.snapshot⟩

def commit : Tables M := ⟨t.nodes.commit, t.edges.commit, t.buckets.commit⟩

def rollback : Tables M := ⟨t.nodes.rollback, t.edges.rollback, t.buckets.rollback⟩

/-- The end of a capture forgets its nodes and edges, not its buckets. -/
def forget (id : Int) : Tables M where
  nodes := t.nodes.forget fun k => k.captureID = id
  edges := t.edges.forget fun k => k.captureID = id
  buckets := t.buckets

end Tables

/-! ## What holds of every state of the store -/

/-- The marks are on counters that exist, and a bucket is filed under its own protocol. -/
structure Store.WF (bucketSecs : Int) (s : Store) : Prop where
  bucketSecs : s.agg.bucketSecs = bucketSecs
  dirtyNodes : ∀ k ∈ s.agg.dirtyNodes.keys, k ∈ s.agg.nodes.keys
  dirtyEdges : ∀ k ∈ s.agg.dirtyEdges.keys, k ∈ s.agg.edges.keys
  buckets : Aggregator.ProtoKeyed s.agg.buckets
  batch : Aggregator.ProtoKeyed s.batch.buckets

variable {reg : Registry} {bucketSecs : Int} {s : Store}

namespace Store

theorem finish_batch (stop : Bool) {s : Store} (h : s.phase = finish stop) :
    s.batch = emptyBatch := by
  unfold batch
  rw [h]
  cases stop <;> rfl

/-- What a flush that starts does to the aggregates, the batch and the rows. -/
theorem beginFlush_parts (s : Store) (stop : Bool) :
    (s.beginFlush stop).agg = s.agg.snapshot.2 ∧ (s.beginFlush stop).db = s.db
      ∧ ((s.beginFlush stop).batch = s.agg.snapshot.1
        ∨ (s.agg.snapshot.1.Empty ∧ (s.beginFlush stop).batch = emptyBatch)) := by
  unfold beginFlush
  split
  rename_i fb agg heq
  rw [heq]
  split
  · rename_i hempty
    exact ⟨rfl, rfl, Or.inr ⟨hempty.2, finish_batch stop rfl⟩⟩
  · exact ⟨rfl, rfl, Or.inl rfl⟩

theorem beginFlush_tables (π : Counters →+ M) (s : Store) (stop : Bool) :
    (s.beginFlush stop).tables π = (s.tables π).snapshot := by
  obtain ⟨hagg, hdb, hbatch⟩ := beginFlush_parts s stop
  have hcounters : counters NodeAgg.load (s.beginFlush stop).batch.nodes
        = counters NodeAgg.load s.agg.snapshot.1.nodes
      ∧ counters (fun e : EdgeAgg => π e.counters) (s.beginFlush stop).batch.edges
        = counters (fun e => π e.counters) s.agg.snapshot.1.edges
      ∧ counters BucketAgg.counters (s.beginFlush stop).batch.buckets
        = counters BucketAgg.counters s.agg.snapshot.1.buckets := by
    rcases hbatch with hb | ⟨⟨hn, he, hk⟩, hb⟩
    · rw [hb]; exact ⟨rfl, rfl, rfl⟩
    · rw [hb, counters_eq_none_iff.mpr hn, counters_eq_none_iff.mpr he,
        counters_eq_none_iff.mpr hk]
      exact ⟨rfl, rfl, rfl⟩
  refine Tables.ext (AbsoluteTable.ext ?_ ?_ ?_ ?_) (AbsoluteTable.ext ?_ ?_ ?_ ?_) (DeltaTable.ext ?_ ?_ ?_)
  · exact (congrArg (fun a : Aggregator => counters NodeAgg.load a.nodes) hagg).trans rfl
  · exact (congrArg (fun a : Aggregator => fun k => decide (k ∈ a.dirtyNodes.keys)) hagg).trans rfl
  · refine hcounters.1.trans (funext fun k => ?_)
    exact (counters_copyKeys _ k).trans (if_congr decide_eq_true_iff.symm rfl rfl)
  · exact congrArg (fun db : DB => counters NodeRow.load db.nodes) hdb
  · exact (congrArg (fun a : Aggregator => counters (fun e : EdgeAgg => π e.counters) a.edges)
      hagg).trans rfl
  · exact (congrArg (fun a : Aggregator => fun k => decide (k ∈ a.dirtyEdges.keys)) hagg).trans rfl
  · refine hcounters.2.1.trans (funext fun k => ?_)
    exact (counters_copyKeys _ k).trans (if_congr decide_eq_true_iff.symm rfl rfl)
  · exact congrArg (fun db : DB => counters (fun r : EdgeRow => π r.counters) db.edges) hdb
  · exact (congrArg (fun a : Aggregator => counters BucketAgg.counters a.buckets) hagg).trans rfl
  · exact hcounters.2.2
  · exact congrArg (fun db : DB => counters BucketRow.counters db.flowBuckets) hdb

/-- A queued or pending packet row is no part of the tables. -/
theorem tables_queue (π : Counters →+ M) (s : Store) (pending events : List PacketEvent) :
    { s with pending := pending, events := events }.tables π = s.tables π := rfl

theorem batch_of_phase {p : Phase} (hp : s.phase = p) (hf : ∀ fb stop, p ≠ .flushing fb stop) :
    s.batch = emptyBatch := by
  unfold batch
  rw [hp]
  cases p with
  | flushing fb stop => exact absurd rfl (hf fb stop)
  | _ => rfl

theorem record_tables (π : Counters →+ M) (h : s.WF bucketSecs) (ev : PacketEvent) :
    { s with agg := s.agg.apply reg ev }.tables π = (s.tables π).record π bucketSecs ev := by
  refine Tables.ext (AbsoluteTable.ext (Aggregator.apply_nodes ..) (funext fun k => ?_) rfl rfl)
    (AbsoluteTable.ext (Aggregator.apply_edges ..) (funext fun k => ?_) rfl rfl)
    (DeltaTable.ext ?_ rfl rfl)
  · refine Bool.eq_iff_iff.mpr (decide_eq_true_iff.trans ((Aggregator.apply_dirtyNodes ..).trans ?_))
    simp [PacketEvent.nodeEntries, Tables.record, AbsoluteTable.add, tables, or_assoc]
  · refine Bool.eq_iff_iff.mpr (decide_eq_true_iff.trans ((Aggregator.apply_dirtyEdges ..).trans ?_))
    simp [PacketEvent.edgeEntry, Tables.record, AbsoluteTable.add, tables]
  · have hb := Aggregator.apply_buckets reg s.agg ev
    rw [h.bucketSecs] at hb
    exact hb

/-- Writing a bucket batch adds it row by row. -/
theorem flowBuckets_counters (db : DB) (pkts : List PacketEvent) {fb : FlushBatch}
    (h : Aggregator.ProtoKeyed fb.buckets) :
    counters BucketRow.counters (db.flushTx pkts fb).flowBuckets
      = fun k => Option.merge (· + ·) (counters BucketRow.counters db.flowBuckets k)
          (counters BucketAgg.counters fb.buckets k) := by
  have hfold : (db.flushTx pkts fb).flowBuckets
      = KeyedMap.upsertAll upsertBucket db.flowBuckets fb.buckets := by
    refine List.foldl_ext _ _ _ fun rows e he => ?_
    have hproto := h e.1 e.2 ((KeyedMap.mem_entries_iff fb.buckets e.1 e.2).mp he)
    have hkey : { e.1 with proto := e.2.proto } = e.1 := by rw [hproto]
    show rows.insert _ _ = rows.insert _ _
    rw [hkey]
  funext k
  rw [hfold, counters_upsertAll_merge (f := BucketAgg.counters)]
  · exact fun _ => rfl
  · exact fun _ _ => rfl

theorem commit_tables (π : Counters →+ M) (h : s.WF bucketSecs) (pkts : List PacketEvent)
    (stop : Bool) :
    { s with db := s.db.flushTx pkts s.batch, pending := [], phase := finish stop }.tables π
      = (s.tables π).commit := by
  refine Tables.ext (AbsoluteTable.ext rfl rfl ?_ (funext fun k => ?_))
    (AbsoluteTable.ext rfl rfl ?_ (funext fun k => ?_)) (DeltaTable.ext rfl ?_ ?_)
  · exact congrArg (counters NodeAgg.load ∘ FlushBatch.nodes) (finish_batch stop rfl)
  · refine counters_upsertAll_or (f := NodeAgg.load) s.db.nodes (fun o n => ?_) k
    cases o <;> rfl
  · exact congrArg (counters (fun e : EdgeAgg => π e.counters) ∘ FlushBatch.edges)
      (finish_batch stop rfl)
  · refine counters_upsertAll_or (f := fun e : EdgeAgg => π e.counters) s.db.edges
      (fun o e => ?_) k
    cases o <;> rfl
  · exact congrArg (counters BucketAgg.counters ∘ FlushBatch.buckets) (finish_batch stop rfl)
  · exact flowBuckets_counters s.db pkts h.batch

omit [AddCommMonoid M] in
theorem forget_cells {κ ν : Type} [DecidableEq κ] (f : ν → M) (m : KeyedMap κ ν) (q : κ → Bool)
    (k : κ) : counters f (KeyedMap.eraseAll m (m.keys.filter q)) k
      = if q k then none else counters f m k := by
  rw [counters_eraseAll]
  by_cases hq : q k = true
  · rw [if_pos hq]
    split
    · rfl
    · rename_i hk
      have hk : k ∉ m := fun hm => hk (List.mem_filter.mpr ⟨AList.mem_keys.mp hm, hq⟩)
      unfold counters
      rw [AList.lookup_eq_none.mpr hk]
      rfl
  · rw [if_neg hq, if_neg fun hm => hq (List.mem_filter.mp hm).2]

theorem forget_dirty {κ ν : Type} [DecidableEq κ] {m : KeyedMap κ ν} {d : KeyedMap κ Unit}
    (hd : ∀ k ∈ d.keys, k ∈ m.keys) (q : κ → Bool) (k : κ) :
    decide (k ∈ (KeyedMap.eraseAll d (m.keys.filter q)).keys) = (decide (k ∈ d.keys) && !q k) := by
  rw [Bool.eq_iff_iff, decide_eq_true_iff, Bool.and_eq_true, decide_eq_true_iff,
    KeyedMap.mem_keys_iff, KeyedMap.lookup_eraseAll]
  by_cases hk : k ∈ d.keys
  · cases hq : q k <;> simp [hk, hd k hk, hq, ← KeyedMap.mem_keys_iff]
  · have hnone : ¬ ∃ x, d.lookup k = some x := fun hx => hk ((KeyedMap.mem_keys_iff d k).mpr hx)
    simp only [hk, false_and, iff_false]
    intro ⟨x, hx⟩
    split at hx
    · cases hx
    · exact hnone ⟨x, hx⟩

theorem forget_tables (π : Counters →+ M) (h : s.WF bucketSecs) (id : Int) :
    { s with agg := s.agg.dropCapture id }.tables π = (s.tables π).forget id := by
  refine Tables.ext (AbsoluteTable.ext (funext fun k => ?_) (funext fun k => ?_) rfl rfl)
    (AbsoluteTable.ext (funext fun k => ?_) (funext fun k => ?_) rfl rfl) rfl
  · exact forget_cells _ s.agg.nodes (fun k => k.captureID = id) k
  · exact forget_dirty h.dirtyNodes (fun k => k.captureID = id) k
  · exact forget_cells _ s.agg.edges (fun k => k.captureID = id) k
  · exact forget_dirty h.dirtyEdges (fun k => k.captureID = id) k

/-- A phase with no transaction leaves the tables alone. -/
theorem phase_tables (π : Counters →+ M) {p : Phase} (hs : s.batch = emptyBatch)
    (hp : ∀ fb stop, p ≠ .flushing fb stop) : { s with phase := p }.tables π = s.tables π := by
  have hbatch : { s with phase := p }.batch = s.batch := by
    rw [hs]
    exact batch_of_phase (s := { s with phase := p }) rfl hp
  unfold tables
  rw [hbatch]

theorem rollback_tables (π : Counters →+ M) (s : Store) (stop : Bool) :
    { s with pending := [], phase := finish stop }.tables π
      = (s.tables π).rollback := by
  have hbatch : { s with pending := [], phase := finish stop }.batch = emptyBatch :=
    finish_batch stop rfl
  unfold tables
  rw [hbatch]
  rfl

/-! ## The invariant of every run -/

theorem wf_init (bucketSecs : Int) : (openStore bucketSecs).WF bucketSecs where
  bucketSecs := rfl
  dirtyNodes := nofun
  dirtyEdges := nofun
  buckets := nofun
  batch := nofun

theorem protoKeyed_empty : Aggregator.ProtoKeyed emptyBatch.buckets := nofun

theorem WF.record (h : s.WF bucketSecs) (ev : PacketEvent) :
    { s with agg := s.agg.apply reg ev }.WF bucketSecs where
  bucketSecs := h.bucketSecs
  dirtyNodes := by
    intro k hk
    show k ∈ ((s.agg.nodes.insert _ _).insert _ _).keys
    rw [← AList.mem_keys, AList.mem_insert, AList.mem_insert, AList.mem_keys]
    rcases (Aggregator.apply_dirtyNodes reg s.agg ev k).mp hk with hk | hk
    · exact Or.inr (Or.inr (h.dirtyNodes k hk))
    · simp only [PacketEvent.nodeEntries, List.map_cons, List.map_nil, List.mem_cons,
        List.not_mem_nil, or_false] at hk
      rcases hk with hk | hk
      · exact Or.inr (Or.inl hk)
      · exact Or.inl hk
  dirtyEdges := by
    intro k hk
    show k ∈ (s.agg.edges.insert _ _).keys
    rw [← AList.mem_keys, AList.mem_insert, AList.mem_keys]
    rcases (Aggregator.apply_dirtyEdges reg s.agg ev k).mp hk with hk | hk
    · exact Or.inr (h.dirtyEdges k hk)
    · exact Or.inl hk
  buckets := Aggregator.apply_protoKeyed reg s.agg ev h.buckets
  batch := h.batch

theorem WF.beginFlush (h : s.WF bucketSecs) (stop : Bool) : (s.beginFlush stop).WF bucketSecs := by
  obtain ⟨hagg, -, hbatch⟩ := beginFlush_parts s stop
  refine ⟨?_, ?_, ?_, ?_, ?_⟩
  · rw [hagg]; exact h.bucketSecs
  · rw [hagg]; exact nofun
  · rw [hagg]; exact nofun
  · rw [hagg]; exact nofun
  · rcases hbatch with hb | ⟨-, hb⟩
    · rw [hb]; exact h.buckets
    · rw [hb]; exact protoKeyed_empty

/-- Only the aggregates and the batch matter. -/
theorem WF.of_eq {s' : Store} (h : s.WF bucketSecs) (ha : s'.agg = s.agg)
    (hb : Aggregator.ProtoKeyed s'.batch.buckets) : s'.WF bucketSecs where
  bucketSecs := ha ▸ h.bucketSecs
  dirtyNodes := ha ▸ h.dirtyNodes
  dirtyEdges := ha ▸ h.dirtyEdges
  buckets := ha ▸ h.buckets
  batch := hb

theorem WF.dropCapture (h : s.WF bucketSecs) (id : Int) :
    { s with agg := s.agg.dropCapture id }.WF bucketSecs := by
  have hkeys : ∀ {κ ν : Type} [DecidableEq κ] {m : KeyedMap κ ν} {d : KeyedMap κ Unit}
      {q : κ → Bool}, (∀ k ∈ d.keys, k ∈ m.keys) →
      ∀ k ∈ (KeyedMap.eraseAll d (m.keys.filter q)).keys,
        k ∈ (KeyedMap.eraseAll m (m.keys.filter q)).keys := by
    intro κ ν _ m d q hd k hk
    rw [KeyedMap.mem_keys_iff, KeyedMap.lookup_eraseAll] at hk ⊢
    obtain ⟨x, hx⟩ := hk
    split at hx
    · cases hx
    · rename_i hk
      rw [if_neg hk, ← KeyedMap.mem_keys_iff]
      exact hd k ((KeyedMap.mem_keys_iff d k).mpr ⟨x, hx⟩)
  exact ⟨h.bucketSecs, hkeys h.dirtyNodes, hkeys h.dirtyEdges, h.buckets, h.batch⟩

variable (reg) in
theorem WF.step (h : s.WF bucketSecs) (a : Action) : (Store.step reg s a).WF bucketSecs := by
  have hphase : ∀ {p : Phase}, (∀ fb stop, p ≠ .flushing fb stop) →
      { s with phase := p }.WF bucketSecs := by
    intro p hp
    refine h.of_eq rfl ?_
    rw [batch_of_phase (s := { s with phase := p }) rfl hp]
    exact protoKeyed_empty
  cases a with
  | record ev =>
    simp only [Store.step]
    split
    · exact h
    · exact h.record ev
  | send ev =>
    simp only [Store.step]
    split
    · exact h
    · split <;> exact ⟨h.bucketSecs, h.dirtyNodes, h.dirtyEdges, h.buckets, h.batch⟩
  | receive =>
    simp only [Store.step]
    split
    · split
      · refine WF.beginFlush ?_ false
        exact h.of_eq rfl h.batch
      · exact h.of_eq rfl h.batch
    · exact h
  | tick =>
    simp only [Store.step]
    split
    · exact h.beginFlush false
    · exact h
  | flushReq =>
    simp only [Store.step]
    split
    · exact hphase nofun
    · exact h
  | done =>
    simp only [Store.step]
    split
    · exact hphase nofun
    · exact h
  | drain =>
    simp only [Store.step]
    split
    · unfold drainOne
      split
      · split
        · exact h.of_eq rfl h.batch
        · exact h.beginFlush _
      · exact h.beginFlush _
    · exact h
  | commit ok =>
    simp only [Store.step]
    split
    · rename_i fb stop hp
      refine h.of_eq rfl ?_
      rw [finish_batch stop rfl]
      exact protoKeyed_empty
    · exact h
  | dropCapture id => exact h.dropCapture id

/-! ## What a step can do -/

/-- The events the aggregates took in, in order; events of capture 0 are ignored. -/
def recorded (l : List Action) : List PacketEvent :=
  l.filterMap fun
    | .record ev => if ev.captureID = 0 then none else some ev
    | _ => none

theorem recorded_append (l l' : List Action) : recorded (l ++ l') = recorded l ++ recorded l' :=
  List.filterMap_append ..

/-- A transaction is open. -/
def inTx (s : Store) : Bool :=
  match s.phase with
  | .flushing _ _ => true
  | _ => false

/--
The moves a step can make on the tables: recording an event, taking a snapshot
when no batch is open, writing or losing the open batch, forgetting a capture, or
none of these.
-/
inductive Moves (π : Counters →+ M) (bucketSecs : Int) (s s' : Store) (a : Action) : Prop
  | record (ev : PacketEvent) (hr : recorded [a] = [ev]) (ha : a = .record ev)
      (ht : s'.tables π = (s.tables π).record π bucketSecs ev) (hx : s'.inTx = s.inTx)
  | snapshot (hr : recorded [a] = []) (hf : a ≠ .commit false) (hb : s.batch = emptyBatch)
      (ht : s'.tables π = (s.tables π).snapshot) (hx : s.inTx = false)
  | commit (ha : a = .commit true) (ht : s'.tables π = (s.tables π).commit)
      (hx : s.inTx = true)
  | rollback (ha : a = .commit false) (ht : s'.tables π = (s.tables π).rollback)
      (hx : s.inTx = true)
  | forget (id : Int) (ha : a = .dropCapture id) (ht : s'.tables π = (s.tables π).forget id)
  | idle (hr : recorded [a] = []) (hf : a = .commit false → s.batch = emptyBatch)
      (ht : s'.tables π = s.tables π) (hx : s'.inTx = s.inTx)
      (hc : ∀ ok, a = .commit ok → s.inTx = false)

variable (reg) in
/-- **Every step of the store is one move of its tables.** -/
theorem step_moves (π : Counters →+ M) (h : s.WF bucketSecs) (a : Action) :
    Moves π bucketSecs s (step reg s a) a := by
  cases a with
  | record ev =>
    by_cases h0 : ev.captureID = 0
    · refine .idle ?_ nofun ?_ ?_ nofun
      · simp only [recorded, List.filterMap_cons, List.filterMap_nil, if_pos h0]
      · simp only [step, if_pos h0]
      · simp only [step, if_pos h0]
    · refine .record ev ?_ rfl ?_ ?_
      · simp only [recorded, List.filterMap_cons, List.filterMap_nil, if_neg h0]
      · simp only [step, if_neg h0]
        exact record_tables π h ev
      · simp only [step, if_neg h0, inTx]
  | send ev =>
    refine .idle rfl nofun ?_ ?_ nofun
    · simp only [step]
      split
      · rfl
      · split <;> rfl
    · simp only [step]
      split
      · rfl
      · split <;> rfl
  | receive =>
    cases hp : s.phase with
    | select =>
      have hb := batch_of_phase hp nofun
      cases he : s.events with
      | nil =>
        refine .idle rfl nofun ?_ ?_ nofun
        · simp only [step, hp, he]
        · simp only [step, hp, he]
      | cons ev rest =>
        by_cases hl : batchSize ≤ s.pending.length + 1
        · refine .snapshot rfl nofun hb ?_ (by unfold inTx; rw [hp])
          simp only [step, hp, he, List.length_append, List.length_singleton, if_pos hl]
          rw [← hp]
          exact beginFlush_tables π { s with pending := s.pending ++ [ev], events := rest } false
        · refine .idle rfl nofun ?_ ?_ nofun
          · simp only [step, hp, he, List.length_append, List.length_singleton, if_neg hl]
            rw [← hp]
            exact tables_queue π s _ rest
          · simp only [step, hp, he, List.length_append, List.length_singleton, if_neg hl, inTx]
    | _ =>
      refine .idle rfl nofun ?_ ?_ nofun
      · simp only [step, hp]
      · simp only [step, hp]
  | tick =>
    cases hp : s.phase with
    | select =>
      refine .snapshot rfl nofun (batch_of_phase hp nofun) ?_ (by unfold inTx; rw [hp])
      simp only [step, hp]
      exact beginFlush_tables π s false
    | _ =>
      refine .idle rfl nofun ?_ ?_ nofun
      · simp only [step, hp]
      · simp only [step, hp]
  | flushReq =>
    cases hp : s.phase with
    | select =>
      refine .idle rfl nofun ?_ ?_ nofun
      · simp only [step, hp]
        exact phase_tables π (batch_of_phase hp nofun) nofun
      · simp only [step, hp, inTx]
    | _ =>
      refine .idle rfl nofun ?_ ?_ nofun
      · simp only [step, hp]
      · simp only [step, hp]
  | done =>
    cases hp : s.phase with
    | select =>
      refine .idle rfl nofun ?_ ?_ nofun
      · simp only [step, hp]
        exact phase_tables π (batch_of_phase hp nofun) nofun
      · simp only [step, hp, inTx]
    | _ =>
      refine .idle rfl nofun ?_ ?_ nofun
      · simp only [step, hp]
      · simp only [step, hp]
  | drain =>
    cases hp : s.phase with
    | drain stop =>
      have hb := batch_of_phase hp nofun
      have hflush : (s.beginFlush stop).tables π = (s.tables π).snapshot := beginFlush_tables π s stop
      by_cases hl : s.pending.length < drainMax
      · cases he : s.events with
        | nil =>
          refine .snapshot rfl nofun hb ?_ (by unfold inTx; rw [hp])
          simp only [step, hp, drainOne, if_pos hl, he]
          exact hflush
        | cons ev rest =>
          refine .idle rfl nofun ?_ ?_ nofun
          · simp only [step, hp, drainOne, if_pos hl, he]
            rw [← hp]
            exact tables_queue π s _ rest
          · simp only [step, hp, drainOne, if_pos hl, he, inTx]
      · refine .snapshot rfl nofun hb ?_ (by unfold inTx; rw [hp])
        simp only [step, hp, drainOne, if_neg hl]
        exact hflush
    | _ =>
      refine .idle rfl nofun ?_ ?_ nofun
      · simp only [step, hp]
      · simp only [step, hp]
  | commit ok =>
    cases hp : s.phase with
    | flushing fb stop =>
      have hb : s.batch = fb := by
        unfold batch
        rw [hp]
      cases ok with
      | true =>
        refine .commit rfl ?_ (by unfold inTx; rw [hp])
        simp only [step, hp, if_true, ← hb]
        exact commit_tables π h s.pending stop
      | false =>
        refine .rollback rfl ?_ (by unfold inTx; rw [hp])
        simp only [step, hp]
        exact rollback_tables π s stop
    | _ =>
      refine .idle rfl ?_ ?_ ?_ ?_
      · exact fun _ => batch_of_phase hp nofun
      · simp only [step, hp]
      · simp only [step, hp]
      · exact fun _ _ => by unfold inTx; rw [hp]
  | dropCapture id =>
    exact .forget id rfl (forget_tables π h id)

/-- Nothing recorded waits for a flush, and no flush is on its way. -/
def Settled (s : Store) : Prop :=
  s.agg.buckets.entries = [] ∧ ∀ fb stop, s.phase ≠ .flushing fb stop

theorem Settled.batch (h : s.Settled) : s.batch = emptyBatch := batch_of_phase rfl h.2

end Store

/-- The node table's history. -/
def nodeHistory (evs : List PacketEvent) : List (NodeKey × Load) :=
  evs.flatMap PacketEvent.nodeEntries

/-- The edge table's history, read through `π`. -/
def edgeHistory (π : Counters →+ M) (evs : List PacketEvent) : List (EdgeKey × M) :=
  evs.map fun ev => (⟨ev.captureID, ev.edgeID⟩, π ev.counters)

/-- The bucket table's history. -/
def bucketHistory (bucketSecs : Int) (evs : List PacketEvent) : List (BucketKey × Counters) :=
  evs.map fun ev => (ev.bucket bucketSecs, ev.counters)

theorem nodeHistory_append (l l' : List PacketEvent) :
    nodeHistory (l ++ l') = nodeHistory l ++ nodeHistory l' := List.flatMap_append ..

theorem edgeHistory_append (π : Counters →+ M) (l l' : List PacketEvent) :
    edgeHistory π (l ++ l') = edgeHistory π l ++ edgeHistory π l' := List.map_append ..

theorem bucketHistory_append (l l' : List PacketEvent) :
    bucketHistory bucketSecs (l ++ l')
      = bucketHistory bucketSecs l ++ bucketHistory bucketSecs l' := List.map_append ..

/-- Every event weighs something. -/
theorem PacketEvent.load_ne_zero (ev : PacketEvent) : ev.load ≠ 0 := by
  intro h
  cases (Prod.ext_iff.mp h).1

theorem PacketEvent.counters_ne_zero (ev : PacketEvent) : ev.counters ≠ 0 := by
  intro h
  exact ev.load_ne_zero (Prod.ext_iff.mp h).1

/-- One packet of capture 1. -/
def onePacket : PacketEvent := { captureID := 1, src := "a", dst := "b", length := 60 }

end Etherchimp
