import Etherchimp.Proof.StoreTables

/-!
# Packets recorded around the end of a capture

`EndCapture` is `Flush` and then `dropCapture`, and the ingest goroutines may
record packets of the capture before, between and after the two. What
`dropCapture` forgets is cumulative: a node or edge dirty at that moment is never
written again, and one that comes back later starts from zero and overwrites the
row written before.
-/

namespace Etherchimp

open Tally WriteBack Store

/-- The packet and byte counters of an edge. -/
abbrev toLoad : Counters →+ Load := AddMonoidHom.fst Load (Load × Load)

/-- The node keys of some events. -/
def nodeKeys (evs : List PacketEvent) : List NodeKey := (nodeHistory evs).map Prod.fst

/-- The edge keys of some events. -/
def edgeKeys (evs : List PacketEvent) : List EdgeKey := (edgeHistory toLoad evs).map Prod.fst

/-- `packet_count` and `byte_count` of the rows of capture `c` do not go down. -/
def RowsRise (c : Int) (db db' : DB) : Prop :=
  (∀ k : NodeKey, k.captureID = c →
      counters NodeRow.load db.nodes k ≤ counters NodeRow.load db'.nodes k)
    ∧ ∀ k : EdgeKey, k.captureID = c →
      counters (fun r => toLoad r.counters) db.edges k
        ≤ counters (fun r => toLoad r.counters) db'.edges k

/-- The rows of capture `c` hold the totals over the events. -/
def TotalsStored (c : Int) (evs : List PacketEvent) (db : DB) : Prop :=
  (∀ k : NodeKey, k.captureID = c → counters NodeRow.load db.nodes k = cell (nodeHistory evs) k)
    ∧ ∀ k : EdgeKey, k.captureID = c →
      counters (fun r => toLoad r.counters) db.edges k = cell (edgeHistory toLoad evs) k

/-- No node or edge of the capture waits for a flush. -/
def NothingWaits (c : Int) (s : Store) : Prop :=
  (∀ k ∈ s.agg.dirtyNodes.keys, k.captureID ≠ c) ∧ ∀ k ∈ s.agg.dirtyEdges.keys, k.captureID ≠ c

/-- No node or edge of the capture is recorded both before and after. -/
def NoneReturns (c : Int) (before after : List PacketEvent) : Prop :=
  (∀ k : NodeKey, k.captureID = c → k ∈ nodeKeys after → k ∉ nodeKeys before)
    ∧ ∀ k : EdgeKey, k.captureID = c → k ∈ edgeKeys after → k ∉ edgeKeys before

/-- The rows found when the counters of the capture were last forgotten. -/
structure Base where
  nodes : NodeKey → Option Load := fun _ => none
  edges : EdgeKey → Option Load := fun _ => none

/-- The rows once the batches of `old` are written over them. -/
def Base.over (base : Base) (old : List PacketEvent) : Base where
  nodes k := (cell (nodeHistory old) k).or (base.nodes k)
  edges k := (cell (edgeHistory toLoad old) k).or (base.edges k)

theorem Base.over_empty (old : List PacketEvent) :
    Base.over {} old = ⟨cell (nodeHistory old), cell (edgeHistory toLoad old)⟩ := by
  unfold Base.over
  simp only [Option.or_none]

/-- The tables of one capture after the events `old`, snapshotted, and `new`, not yet. -/
structure CaptureInv (bucketSecs c : Int) (base : Base) (old new : List PacketEvent) (s : Store) :
    Prop where
  wf : s.WF bucketSecs
  nodes : AbsoluteTable.Inv (fun k : NodeKey => k.captureID = c) base.nodes (nodeHistory old)
    (nodeHistory new) (s.tables toLoad).nodes
  edges : AbsoluteTable.Inv (fun k : EdgeKey => k.captureID = c) base.edges
    (edgeHistory toLoad old) (edgeHistory toLoad new) (s.tables toLoad).edges
  waiting : s.agg.buckets.entries = [] → new = []

/-- The batch of the open transaction raises rows. -/
def BatchRises (c : Int) (s : Store) : Prop :=
  AbsoluteTable.Rising (fun k : NodeKey => k.captureID = c) (s.tables toLoad).nodes
    ∧ AbsoluteTable.Rising (fun k : EdgeKey => k.captureID = c) (s.tables toLoad).edges

variable {reg : Registry} {bucketSecs c : Int} {base : Base} {s : Store}
  {old new : List PacketEvent}

theorem batch_none (h : s.batch = emptyBatch) :
    (∀ k, (s.tables toLoad).nodes.batch k = none)
      ∧ ∀ k, (s.tables toLoad).edges.batch k = none := by
  unfold tables
  rw [h]
  exact ⟨fun _ => rfl, fun _ => rfl⟩

/-! ## One step -/

variable (reg) in
theorem CaptureInv.step (h : CaptureInv bucketSecs c base old new s) {a : Action}
    (hf : a ≠ .commit false) (hd : a ≠ .dropCapture c) : ∃ old' new',
      CaptureInv bucketSecs c base old' new' (Store.step reg s a)
      ∧ old' ++ new' = old ++ new ++ recorded [a] := by
  have hwf := h.wf.step reg a
  have hbuckets : (Store.step reg s a).agg.buckets.entries = []
      ↔ ((Store.step reg s a).tables toLoad).buckets.deltas = fun _ => none :=
    counters_eq_none_iff.symm
  cases step_moves reg toLoad h.wf a with
  | record ev hr ha ht =>
    refine ⟨old, new ++ [ev], ⟨hwf, ?_, ?_, ?_⟩, ?_⟩
    · have hadd := (h.nodes.add ⟨ev.captureID, ev.src⟩ ev.load).add ⟨ev.captureID, ev.dst⟩ ev.load
      rw [List.append_assoc] at hadd
      rw [ht, nodeHistory_append new]
      exact hadd
    · rw [ht, edgeHistory_append _ new]
      exact h.edges.add _ _
    · rw [hbuckets, ht]
      intro hn
      have hk := congrFun hn (ev.bucket bucketSecs)
      simp only [Tables.record, DeltaTable.add, bump, if_pos] at hk
      cases hk
    · rw [hr, List.append_assoc]
  | snapshot hr _ hb ht =>
    refine ⟨old ++ new, [], ⟨hwf, ?_, ?_, fun _ => rfl⟩, ?_⟩
    · rw [ht, nodeHistory_append]
      exact h.nodes.snapshot fun k _ => (batch_none hb).1 k
    · rw [ht, edgeHistory_append]
      exact h.edges.snapshot fun k _ => (batch_none hb).2 k
    · rw [hr]
  | commit ha ht =>
    refine ⟨old, new, ⟨hwf, ?_, ?_, ?_⟩, ?_⟩
    · rw [ht]; exact h.nodes.commit
    · rw [ht]; exact h.edges.commit
    · rw [hbuckets, ht]
      exact fun hn => h.waiting (counters_eq_none_iff.mp hn)
    · rw [ha]; exact (List.append_nil _).symm
  | rollback ha ht => exact absurd ha hf
  | forget id ha ht =>
    have hid : id ≠ c := fun he => hd (he ▸ ha)
    refine ⟨old, new, ⟨hwf, ?_, ?_, ?_⟩, ?_⟩
    · rw [ht]
      exact h.nodes.forget_other fun k hk => decide_eq_false fun he => hid (he ▸ hk)
    · rw [ht]
      exact h.edges.forget_other fun k hk => decide_eq_false fun he => hid (he ▸ hk)
    · rw [hbuckets, ht]
      exact fun hn => h.waiting (counters_eq_none_iff.mp hn)
    · rw [ha]; exact (List.append_nil _).symm
  | idle hr _ ht =>
    refine ⟨old, new, ⟨hwf, ?_, ?_, ?_⟩, ?_⟩
    · rw [ht]; exact h.nodes
    · rw [ht]; exact h.edges
    · rw [hbuckets, ht]
      exact fun hn => h.waiting (counters_eq_none_iff.mp hn)
    · rw [hr, List.append_nil]

variable (reg) in
/-- The end of the capture starts its tables afresh over the rows snapshotted so far. -/
theorem CaptureInv.drop (h : CaptureInv bucketSecs c base old new s) :
    CaptureInv bucketSecs c (base.over old) [] [] (Store.step reg s (.dropCapture c)) where
  wf := h.wf.step reg _
  nodes := by
    rw [show Store.step reg s (.dropCapture c) = { s with agg := s.agg.dropCapture c } from rfl,
      forget_tables toLoad h.wf c]
    exact h.nodes.forget fun k hk => decide_eq_true hk
  edges := by
    rw [show Store.step reg s (.dropCapture c) = { s with agg := s.agg.dropCapture c } from rfl,
      forget_tables toLoad h.wf c]
    exact h.edges.forget fun k hk => decide_eq_true hk
  waiting _ := rfl

/-- The rows of the tables are the rows of the database. -/
theorem rowsRise_of_tables {s' : Store} {t : Tables Load} (ht : s'.tables toLoad = t)
    (hn : ∀ k : NodeKey, k.captureID = c → (s.tables toLoad).nodes.rows k ≤ t.nodes.rows k)
    (he : ∀ k : EdgeKey, k.captureID = c → (s.tables toLoad).edges.rows k ≤ t.edges.rows k) :
    RowsRise c s.db s'.db := by
  subst ht
  exact ⟨hn, he⟩

variable (reg) in
/-- A step raises rows as long as no key comes back after it was forgotten. -/
theorem CaptureInv.rises (h : CaptureInv bucketSecs c base old new s) (a : Action)
    (hr : BatchRises c s)
    (hn : ∀ k : NodeKey, k.captureID = c → k ∈ nodeKeys new → base.nodes k = none)
    (he : ∀ k : EdgeKey, k.captureID = c → k ∈ edgeKeys new → base.edges k = none)
    (hf : a ≠ .commit false) :
    RowsRise c s.db (Store.step reg s a).db ∧ BatchRises c (Store.step reg s a) := by
  have hsame : ∀ {t : Tables Load}, (Store.step reg s a).tables toLoad = t →
      t.nodes.rows = (s.tables toLoad).nodes.rows →
      t.edges.rows = (s.tables toLoad).edges.rows →
      RowsRise c s.db (Store.step reg s a).db := by
    intro t ht hnodes hedges
    refine rowsRise_of_tables ht (fun k _ => ?_) (fun k _ => ?_)
    · rw [hnodes]; exact AbsoluteTable.optionLE_refl _
    · rw [hedges]; exact AbsoluteTable.optionLE_refl _
  unfold BatchRises
  cases step_moves reg toLoad h.wf a with
  | record ev _ _ ht =>
    refine ⟨hsame ht rfl rfl, ?_⟩
    rw [ht]
    exact hr
  | snapshot _ _ hb ht =>
    refine ⟨hsame ht rfl rfl, ?_⟩
    rw [ht]
    exact ⟨.snapshot (fun k _ => (batch_none hb).1 k) h.nodes hn,
      .snapshot (fun k _ => (batch_none hb).2 k) h.edges he⟩
  | commit _ ht =>
    refine ⟨rowsRise_of_tables ht hr.1 hr.2, ?_⟩
    rw [ht]
    exact ⟨.commit, .commit⟩
  | rollback ha _ => exact absurd ha hf
  | forget id _ ht =>
    refine ⟨hsame ht rfl rfl, ?_⟩
    rw [ht]
    exact hr
  | idle _ _ ht =>
    refine ⟨hsame ht rfl rfl, ?_⟩
    rw [ht]
    exact hr

/-! ## Whole runs -/

/-- Every step of a run raises the rows of the capture. -/
def AlwaysRises (reg : Registry) (bucketSecs c : Int) (l : List Action) : Prop :=
  ∀ l₁ a l₂, l = l₁ ++ a :: l₂ →
    RowsRise c (run reg bucketSecs l₁).db (run reg bucketSecs (l₁ ++ [a])).db

theorem alwaysRises_concat {l : List Action} {a : Action} (h : AlwaysRises reg bucketSecs c l)
    (ha : RowsRise c (run reg bucketSecs l).db (run reg bucketSecs (l ++ [a])).db) :
    AlwaysRises reg bucketSecs c (l ++ [a]) := by
  intro l₁ b l₂ heq
  rcases List.eq_nil_or_concat' l₂ with rfl | ⟨l₂', b', rfl⟩
  · obtain ⟨rfl, hb⟩ := List.append_inj' heq rfl
    cases hb
    exact ha
  · have heq' : l ++ [a] = (l₁ ++ b :: l₂') ++ [b'] := by
      rw [heq, List.append_assoc, List.cons_append]
    obtain ⟨rfl, -⟩ := List.append_inj' heq' rfl
    exact h l₁ b l₂' rfl

theorem run_concat (l : List Action) (a : Action) :
    run reg bucketSecs (l ++ [a]) = Store.step reg (run reg bucketSecs l) a := Run.exec_concat ..

/-- A stretch of a run that starts with fresh tables and forgets the capture nowhere. -/
theorem captureInv_run {start l : List Action}
    (h0 : CaptureInv bucketSecs c base [] [] (run reg bucketSecs start))
    (hf : ∀ a ∈ l, a ≠ .commit false) (hd : ∀ a ∈ l, a ≠ .dropCapture c) :
    ∃ old new, CaptureInv bucketSecs c base old new (run reg bucketSecs (start ++ l))
      ∧ old ++ new = recorded l := by
  induction l using List.reverseRecOn with
  | nil => exact ⟨[], [], by rw [List.append_nil]; exact h0, rfl⟩
  | append_singleton l a ih =>
    have hl : ∀ b ∈ l, b ∈ l ++ [a] := fun b hb => List.mem_append_left _ hb
    have ha : a ∈ l ++ [a] := List.mem_append_right _ (List.mem_singleton_self a)
    obtain ⟨old, new, h, heq⟩ := ih (fun b hb => hf b (hl b hb)) (fun b hb => hd b (hl b hb))
    obtain ⟨old', new', h', heq'⟩ := h.step reg (hf a ha) (hd a ha)
    refine ⟨old', new', ?_, ?_⟩
    · rw [← List.append_assoc, run_concat]
      exact h'
    · rw [heq', heq, recorded_append]

theorem nodeKeys_append (l l' : List PacketEvent) : nodeKeys (l ++ l') = nodeKeys l ++ nodeKeys l' := by
  unfold nodeKeys
  rw [nodeHistory_append, List.map_append]

theorem edgeKeys_append (l l' : List PacketEvent) : edgeKeys (l ++ l') = edgeKeys l ++ edgeKeys l' := by
  unfold edgeKeys
  rw [edgeHistory_append, List.map_append]

/-- Such a stretch raises rows when it records no key of the rows it started over. -/
theorem rises_run {start l : List Action}
    (h0 : CaptureInv bucketSecs c base [] [] (run reg bucketSecs start))
    (hr0 : AlwaysRises reg bucketSecs c start ∧ BatchRises c (run reg bucketSecs start))
    (hf : ∀ a ∈ l, a ≠ .commit false) (hd : ∀ a ∈ l, a ≠ .dropCapture c)
    (hn : ∀ k : NodeKey, k.captureID = c → k ∈ nodeKeys (recorded l) → base.nodes k = none)
    (he : ∀ k : EdgeKey, k.captureID = c → k ∈ edgeKeys (recorded l) → base.edges k = none) :
    AlwaysRises reg bucketSecs c (start ++ l) ∧ BatchRises c (run reg bucketSecs (start ++ l)) := by
  induction l using List.reverseRecOn with
  | nil => rw [List.append_nil]; exact hr0
  | append_singleton l a ih =>
    have hl : ∀ b ∈ l, b ∈ l ++ [a] := fun b hb => List.mem_append_left _ hb
    have hfl : ∀ b ∈ l, b ≠ .commit false := fun b hb => hf b (hl b hb)
    have hdl : ∀ b ∈ l, b ≠ .dropCapture c := fun b hb => hd b (hl b hb)
    rw [recorded_append] at hn he
    rw [nodeKeys_append] at hn
    rw [edgeKeys_append] at he
    obtain ⟨old, new, h, heq⟩ := captureInv_run h0 hfl hdl
    obtain ⟨hrises, hbatch⟩ := ih hfl hdl
      (fun k hk hm => hn k hk (List.mem_append_left _ hm))
      (fun k hk hm => he k hk (List.mem_append_left _ hm))
    obtain ⟨hstep, hbatch'⟩ := h.rises reg a hbatch
      (fun k hk hm => hn k hk (List.mem_append_left _ (by
        rw [← heq, nodeKeys_append]; exact List.mem_append_right _ hm)))
      (fun k hk hm => he k hk (List.mem_append_left _ (by
        rw [← heq, edgeKeys_append]; exact List.mem_append_right _ hm)))
      (hf a (List.mem_append_right _ (List.mem_singleton_self a)))
    rw [← List.append_assoc, run_concat]
    refine ⟨alwaysRises_concat hrises ?_, hbatch'⟩
    rw [run_concat]
    exact hstep

/-! ## The end of the capture -/

theorem captureInv_init (reg : Registry) (bucketSecs c : Int) :
    CaptureInv bucketSecs c {} [] [] (run reg bucketSecs []) where
  wf := wf_init bucketSecs
  nodes := ⟨fun _ _ => rfl,
    fun _ _ => by simp [nodeHistory, tables, run, openStore, newAggregator], fun _ _ => rfl⟩
  edges := ⟨fun _ _ => rfl,
    fun _ _ => by simp [edgeHistory, tables, run, openStore, newAggregator], fun _ _ => rfl⟩
  waiting _ := rfl

theorem rises_init (reg : Registry) (bucketSecs c : Int) :
    AlwaysRises reg bucketSecs c [] ∧ BatchRises c (run reg bucketSecs []) :=
  ⟨fun l₁ a l₂ h => absurd h (by simp), fun _ _ => Option.none_le, fun _ _ => Option.none_le⟩

/-- What waits at the end is what was recorded since the last snapshot. -/
theorem CaptureInv.nothingWaits_iff (h : CaptureInv bucketSecs c base old new s) :
    NothingWaits c s ↔ (∀ k : NodeKey, k.captureID = c → k ∉ nodeKeys new)
      ∧ ∀ k : EdgeKey, k.captureID = c → k ∉ edgeKeys new := by
  have hn : ∀ k : NodeKey, k.captureID = c → (k ∈ s.agg.dirtyNodes.keys ↔ k ∈ nodeKeys new) :=
    fun k hk => decide_eq_true_iff.symm.trans (h.nodes.dirty k hk)
  have he : ∀ k : EdgeKey, k.captureID = c → (k ∈ s.agg.dirtyEdges.keys ↔ k ∈ edgeKeys new) :=
    fun k hk => decide_eq_true_iff.symm.trans (h.edges.dirty k hk)
  constructor
  · intro ⟨hwn, hwe⟩
    exact ⟨fun k hk hm => hwn k ((hn k hk).mpr hm) hk, fun k hk hm => hwe k ((he k hk).mpr hm) hk⟩
  · intro ⟨hwn, hwe⟩
    exact ⟨fun k hm hk => hwn k hk ((hn k hk).mp hm), fun k hm hk => hwe k hk ((he k hk).mp hm)⟩

/-- The rows of a settled store are the last snapshot's, over the base. -/
theorem CaptureInv.settled (h : CaptureInv bucketSecs c base old new s) (hs : s.Settled) :
    new = [] ∧ (∀ k : NodeKey, k.captureID = c →
        counters NodeRow.load s.db.nodes k = (base.over old).nodes k)
      ∧ ∀ k : EdgeKey, k.captureID = c →
        counters (fun r => toLoad r.counters) s.db.edges k = (base.over old).edges k := by
  have hnew := h.waiting hs.1
  subst hnew
  have hb := batch_none hs.batch
  exact ⟨rfl, fun k hk => h.nodes.settled (fun k _ => hb.1 k) hk,
    fun k hk => h.edges.settled (fun k _ => hb.2 k) hk⟩

theorem nodeHistory_ne_zero (evs : List PacketEvent) : ∀ x ∈ nodeHistory evs, x.2 ≠ 0 := by
  intro x hx
  obtain ⟨ev, -, hx⟩ := List.mem_flatMap.mp hx
  simp only [PacketEvent.nodeEntries, List.mem_cons, List.not_mem_nil, or_false] at hx
  rcases hx with rfl | rfl <;> exact ev.load_ne_zero

theorem edgeHistory_ne_zero (evs : List PacketEvent) : ∀ x ∈ edgeHistory toLoad evs, x.2 ≠ 0 := by
  intro x hx
  obtain ⟨ev, -, rfl⟩ := List.mem_map.mp hx
  exact ev.load_ne_zero

/-- Rows written before and after the counters were forgotten, against the totals. -/
theorem totalsStored_iff {old lost late : List PacketEvent} {db : DB}
    (hn : ∀ k : NodeKey, k.captureID = c →
      counters NodeRow.load db.nodes k = ((Base.over {} old).over late).nodes k)
    (he : ∀ k : EdgeKey, k.captureID = c →
      counters (fun r => toLoad r.counters) db.edges k = ((Base.over {} old).over late).edges k) :
    TotalsStored c (old ++ lost ++ late) db ↔
      (∀ k : NodeKey, k.captureID = c →
        k ∉ nodeKeys lost ∧ (k ∈ nodeKeys late → k ∉ nodeKeys old))
      ∧ ∀ k : EdgeKey, k.captureID = c →
        k ∉ edgeKeys lost ∧ (k ∈ edgeKeys late → k ∉ edgeKeys old) := by
  have hsplitN : nodeHistory (old ++ lost ++ late)
      = nodeHistory old ++ nodeHistory lost ++ nodeHistory late := by
    rw [nodeHistory_append, nodeHistory_append]
  have hsplitE : edgeHistory toLoad (old ++ lost ++ late)
      = edgeHistory toLoad old ++ edgeHistory toLoad lost ++ edgeHistory toLoad late := by
    rw [edgeHistory_append, edgeHistory_append]
  refine and_congr ?_ ?_
  · refine forall_congr' fun k => imp_congr_right fun hk => ?_
    rw [hn k hk, Base.over_empty, hsplitN]
    exact late_eq_iff (by rw [← hsplitN]; exact nodeHistory_ne_zero _) k
  · refine forall_congr' fun k => imp_congr_right fun hk => ?_
    rw [he k hk, Base.over_empty, hsplitE]
    exact late_eq_iff (by rw [← hsplitE]; exact edgeHistory_ne_zero _) k

/-- Nothing was lost and nothing came back, key by key. -/
theorem preserved_iff (old : List PacketEvent) {lost : List PacketEvent}
    (late : List PacketEvent)
    (h : NothingWaits c s ↔ (∀ k : NodeKey, k.captureID = c → k ∉ nodeKeys lost)
      ∧ ∀ k : EdgeKey, k.captureID = c → k ∉ edgeKeys lost) :
    ((∀ k : NodeKey, k.captureID = c → k ∉ nodeKeys lost ∧ (k ∈ nodeKeys late → k ∉ nodeKeys old))
      ∧ ∀ k : EdgeKey, k.captureID = c →
        k ∉ edgeKeys lost ∧ (k ∈ edgeKeys late → k ∉ edgeKeys old))
      ↔ NothingWaits c s ∧ NoneReturns c (old ++ lost) late := by
  rw [h]
  unfold NoneReturns
  simp only [nodeKeys_append, edgeKeys_append, List.mem_append, not_or]
  constructor
  · intro ⟨hn, he⟩
    exact ⟨⟨fun k hk => (hn k hk).1, fun k hk => (he k hk).1⟩,
      fun k hk hm => ⟨(hn k hk).2 hm, (hn k hk).1⟩, fun k hk hm => ⟨(he k hk).2 hm, (he k hk).1⟩⟩
  · intro ⟨⟨hn, he⟩, hrn, hre⟩
    exact ⟨fun k hk => ⟨hn k hk, fun hm => (hrn k hk hm).1⟩,
      fun k hk => ⟨he k hk, fun hm => (hre k hk hm).1⟩⟩

/--
The rows of a capture never go down and end at the totals of all its packets if
and only if, when its end forgets its counters, none of its packets waits for a
flush, and no node or edge it counted before comes back after. `before` includes
the `Flush` of `EndCapture`, and the run is one after whose last flush nothing
waits.
-/
theorem capturePreserved_iff (reg : Registry) (bucketSecs c : Int) {before after : List Action}
    (hf : ∀ a ∈ before ++ after, a ≠ .commit false)
    (hd : ∀ a ∈ before ++ after, a ≠ .dropCapture c)
    (hs : (run reg bucketSecs (before ++ .dropCapture c :: after)).Settled) :
    (AlwaysRises reg bucketSecs c (before ++ .dropCapture c :: after)
        ∧ TotalsStored c (recorded (before ++ after))
          (run reg bucketSecs (before ++ .dropCapture c :: after)).db)
      ↔ NothingWaits c (run reg bucketSecs before)
        ∧ NoneReturns c (recorded before) (recorded after) := by
  have hfb : ∀ a ∈ before, a ≠ .commit false := fun a ha => hf a (List.mem_append_left _ ha)
  have hfa : ∀ a ∈ after, a ≠ .commit false := fun a ha => hf a (List.mem_append_right _ ha)
  have hdb : ∀ a ∈ before, a ≠ .dropCapture c := fun a ha => hd a (List.mem_append_left _ ha)
  have hda : ∀ a ∈ after, a ≠ .dropCapture c := fun a ha => hd a (List.mem_append_right _ ha)
  have hrun : before ++ .dropCapture c :: after = (before ++ [.dropCapture c]) ++ after := by
    rw [List.append_assoc, List.singleton_append]
  rw [hrun] at hs ⊢
  have hinit := captureInv_init reg bucketSecs c
  obtain ⟨old, lost, hI, heq⟩ := captureInv_run hinit hfb hdb
  rw [List.nil_append] at hI
  have hdrop := hI.drop reg
  rw [← run_concat] at hdrop
  obtain ⟨late, new, hI', heq'⟩ := captureInv_run hdrop hfa hda
  obtain ⟨rfl, hrowsN, hrowsE⟩ := hI'.settled hs
  rw [List.append_nil] at heq'
  have hcond := preserved_iff old late hI.nothingWaits_iff
  rw [recorded_append, ← heq, ← heq', totalsStored_iff hrowsN hrowsE, hcond]
  refine and_iff_right_of_imp fun ⟨hw, hback⟩ => ?_
  -- the rows rise up to the end of the capture, and from there on no old key is written
  obtain ⟨hrises, hbatch⟩ := rises_run hinit (rises_init reg bucketSecs c) hfb hdb
    (fun _ _ _ => rfl) (fun _ _ _ => rfl)
  rw [List.nil_append] at hrises hbatch
  obtain ⟨hstep, hbatch'⟩ := hI.rises reg (.dropCapture c) hbatch
    (fun _ _ _ => rfl) (fun _ _ _ => rfl) nofun
  have hmid : AlwaysRises reg bucketSecs c (before ++ [.dropCapture c]) :=
    alwaysRises_concat hrises (by rw [run_concat]; exact hstep)
  rw [← run_concat] at hbatch'
  refine (rises_run hdrop ⟨hmid, hbatch'⟩ hfa hda (fun k hk hm => ?_) fun k hk hm => ?_).1
  · rw [← heq'] at hm
    have hold := hback.1 k hk hm
    rw [nodeKeys_append, List.mem_append, not_or] at hold
    rw [Base.over_empty]
    exact cell_eq_none.mpr hold.1
  · rw [← heq'] at hm
    have hold := hback.2 k hk hm
    rw [edgeKeys_append, List.mem_append, not_or] at hold
    rw [Base.over_empty]
    exact cell_eq_none.mpr hold.1

/-- The end of a capture after one packet, and a late packet between two other hosts. -/
theorem capturePreserved_otherHosts :
    AlwaysRises (Registry.ofList []) 1 1
        [.record onePacket, .flushReq, .drain, .commit true, .dropCapture 1,
          .record { onePacket with src := "c", dst := "d" }, .tick, .commit true]
      ∧ TotalsStored 1 [onePacket, { onePacket with src := "c", dst := "d" }]
        (run (Registry.ofList []) 1
          [.record onePacket, .flushReq, .drain, .commit true, .dropCapture 1,
            .record { onePacket with src := "c", dst := "d" }, .tick, .commit true]).db := by
  have h := @capturePreserved_iff (Registry.ofList []) 1 1
    [.record onePacket, .flushReq, .drain, .commit true]
    [.record { onePacket with src := "c", dst := "d" }, .tick, .commit true]
    (by simp) (by simp) ⟨rfl, fun _ _ h => nomatch h⟩
  refine h.mpr ⟨⟨nofun, nofun⟩, ?_, ?_⟩
  · have hkeys : ∀ k ∈ nodeKeys [{ onePacket with src := "c", dst := "d" }],
        k ∉ nodeKeys [onePacket] := by decide
    exact fun k _ hm => hkeys k hm
  · have hkeys : ∀ k ∈ edgeKeys [{ onePacket with src := "c", dst := "d" }],
        k ∉ edgeKeys [onePacket] := by decide
    exact fun k _ hm => hkeys k hm

/-- Two packets, the end of their capture, and one late packet between the same hosts. -/
def lateRun : List Action :=
  [.record onePacket, .record onePacket, .flushReq, .drain, .commit true, .dropCapture 1,
    .record onePacket, .tick, .commit true]

/-- The late packet overwrites the two before it. -/
theorem capturePreserved_latePacket :
    (run (Registry.ofList []) 1 lateRun).Settled
      ∧ ¬ AlwaysRises (Registry.ofList []) 1 1 lateRun
      ∧ ¬ TotalsStored 1 (recorded lateRun) (run (Registry.ofList []) 1 lateRun).db := by
  refine ⟨⟨rfl, fun _ _ h => nomatch h⟩, ?_, ?_⟩
  · intro h
    have hlast := (h [.record onePacket, .record onePacket, .flushReq, .drain, .commit true,
      .dropCapture 1, .record onePacket, .tick] (.commit true) [] rfl).1 ⟨1, "a"⟩ rfl
    have hle : ((2, 120) : Load) ≤ (1, 60) := Option.some_le_some.mp hlast
    exact absurd hle.1 (by decide)
  · intro h
    exact absurd (h.1 ⟨1, "a"⟩ rfl) (by decide)

end Etherchimp
