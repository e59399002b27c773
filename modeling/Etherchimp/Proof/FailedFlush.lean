import Etherchimp.Proof.StoreTables

/-!
# What a failed flush loses

`snapshot` moves the bucket deltas and the dirty marks out of the aggregator
before the transaction runs, and nothing puts them back when it fails. The
deltas are gone for good; the cumulative node and edge counters are still there,
but their marks are not. So a run keeps its aggregates exactly as long as no
transaction fails that carried anything recorded since the snapshot before it.
-/

namespace Etherchimp

open Tally WriteBack Store

/-- All six counters of an edge. -/
abbrev allCounters : Counters →+ Counters := AddMonoidHom.id Counters

/-- Every row of the three aggregate tables holds the totals over the events. -/
def RowsExact (bucketSecs : Int) (evs : List PacketEvent) (db : DB) : Prop :=
  counters BucketRow.counters db.flowBuckets = cell (bucketHistory bucketSecs evs)
    ∧ counters NodeRow.load db.nodes = cell (nodeHistory evs)
    ∧ counters EdgeRow.counters db.edges = cell (edgeHistory allCounters evs)

/-- A transaction that fails carries no delta. -/
def LosesNothing (s : Store) (a : Action) : Prop :=
  a = .commit false → s.batch.buckets.entries = []

/--
The recorded events, split at the snapshots: written, in the open batch, since
the last snapshot, and lost. When none is lost nodes and edges are exact too.
-/
structure FlushInv (bucketSecs : Int) (done flying new lost : List PacketEvent) (s : Store) :
    Prop where
  wf : s.WF bucketSecs
  buckets : DeltaTable.Inv (bucketHistory bucketSecs done) (bucketHistory bucketSecs flying)
    (bucketHistory bucketSecs new) (s.tables allCounters).buckets
  nodes : lost = [] → AbsoluteTable.Inv (fun _ => True) (fun _ => none)
    (nodeHistory (done ++ flying)) (nodeHistory new) (s.tables allCounters).nodes
  edges : lost = [] → AbsoluteTable.Inv (fun _ => True) (fun _ => none)
    (edgeHistory allCounters (done ++ flying))
    (edgeHistory allCounters new) (s.tables allCounters).edges
  nodeBatch : lost = [] → flying = [] → ∀ k, (s.tables allCounters).nodes.batch k = none
  edgeBatch : lost = [] → flying = [] → ∀ k, (s.tables allCounters).edges.batch k = none

variable {reg : Registry} {bucketSecs : Int} {s : Store}
  {done flying new lost : List PacketEvent}

theorem bucketHistory_eq_nil (bucketSecs : Int) {evs : List PacketEvent} :
    bucketHistory bucketSecs evs = [] ↔ evs = [] := List.map_eq_nil_iff

/-- The deltas in the batch are the events in flight. -/
theorem FlushInv.flying_eq_nil (h : FlushInv bucketSecs done flying new lost s) :
    s.batch.buckets.entries = [] ↔ flying = [] := by
  rw [← bucketHistory_eq_nil bucketSecs, ← cell_eq_none_iff, ← h.buckets.batch]
  exact counters_eq_none_iff.symm

theorem FlushInv.new_eq_nil (h : FlushInv bucketSecs done flying new lost s) :
    s.agg.buckets.entries = [] ↔ new = [] := by
  rw [← bucketHistory_eq_nil bucketSecs, ← cell_eq_none_iff, ← h.buckets.deltas]
  exact counters_eq_none_iff.symm

theorem flushInv_init (bucketSecs : Int) :
    FlushInv bucketSecs [] [] [] [] (openStore bucketSecs) where
  wf := wf_init bucketSecs
  buckets := ⟨rfl, rfl, rfl⟩
  nodes _ := ⟨fun _ _ => rfl, fun _ _ => by simp [nodeHistory, tables, openStore, newAggregator],
    fun _ _ => rfl⟩
  edges _ := ⟨fun _ _ => rfl, fun _ _ => by simp [edgeHistory, tables, openStore, newAggregator],
    fun _ _ => rfl⟩
  nodeBatch _ _ _ := rfl
  edgeBatch _ _ _ := rfl

/-! ## One step -/

theorem FlushInv.record (h : FlushInv bucketSecs done flying new lost s) {ev : PacketEvent}
    {s' : Store} (hwf : s'.WF bucketSecs)
    (ht : s'.tables allCounters = (s.tables allCounters).record allCounters bucketSecs ev) :
    FlushInv bucketSecs done flying (new ++ [ev]) lost s' where
  wf := hwf
  buckets := by
    rw [ht, bucketHistory_append]
    exact h.buckets.add _ _
  nodes hl := by
    have hadd := ((h.nodes hl).add ⟨ev.captureID, ev.src⟩ ev.load).add
      ⟨ev.captureID, ev.dst⟩ ev.load
    rw [List.append_assoc] at hadd
    rw [ht, nodeHistory_append new]
    exact hadd
  edges hl := by
    rw [ht, edgeHistory_append _ new]
    exact (h.edges hl).add _ _
  nodeBatch := by rw [ht]; exact h.nodeBatch
  edgeBatch := by rw [ht]; exact h.edgeBatch

theorem FlushInv.snapshot (h : FlushInv bucketSecs done [] new lost s) {s' : Store}
    (hwf : s'.WF bucketSecs)
    (ht : s'.tables allCounters = (s.tables allCounters).snapshot) :
    FlushInv bucketSecs done new [] lost s' where
  wf := hwf
  buckets := by
    rw [ht]
    exact h.buckets.snapshot
  nodes hl := by
    have hs := (h.nodes hl).snapshot fun k _ => h.nodeBatch hl rfl k
    rw [List.append_nil, ← nodeHistory_append] at hs
    rw [ht]
    exact hs
  edges hl := by
    have hs := (h.edges hl).snapshot fun k _ => h.edgeBatch hl rfl k
    rw [List.append_nil, ← edgeHistory_append] at hs
    rw [ht]
    exact hs
  nodeBatch hl hn k := by
    rw [ht]
    exact (h.nodes hl).snapshot_batch trivial (by rw [hn]; exact List.not_mem_nil)
  edgeBatch hl hn k := by
    rw [ht]
    exact (h.edges hl).snapshot_batch trivial (by rw [hn]; exact List.not_mem_nil)

theorem FlushInv.commit (h : FlushInv bucketSecs done flying new lost s) {s' : Store}
    (hwf : s'.WF bucketSecs)
    (ht : s'.tables allCounters = (s.tables allCounters).commit) :
    FlushInv bucketSecs (done ++ flying) [] new lost s' where
  wf := hwf
  buckets := by
    rw [ht, bucketHistory_append]
    exact h.buckets.commit
  nodes hl := by
    rw [ht, List.append_nil]
    exact (h.nodes hl).commit
  edges hl := by
    rw [ht, List.append_nil]
    exact (h.edges hl).commit
  nodeBatch _ _ k := by rw [ht]; rfl
  edgeBatch _ _ k := by rw [ht]; rfl

theorem FlushInv.rollback (h : FlushInv bucketSecs done flying new lost s) {s' : Store}
    (hwf : s'.WF bucketSecs)
    (ht : s'.tables allCounters = (s.tables allCounters).rollback) :
    FlushInv bucketSecs done [] new (lost ++ flying) s' where
  wf := hwf
  buckets := by
    rw [ht]
    exact h.buckets.rollback
  nodes hl := by
    -- with nothing in flight, losing the batch is writing it
    obtain ⟨hlost, hf⟩ := List.append_eq_nil_iff.mp hl
    subst hf
    rw [ht]
    exact (h.nodes hlost).rollback fun k _ => h.nodeBatch hlost rfl k
  edges hl := by
    obtain ⟨hlost, hf⟩ := List.append_eq_nil_iff.mp hl
    subst hf
    rw [ht]
    exact (h.edges hlost).rollback fun k _ => h.edgeBatch hlost rfl k
  nodeBatch _ _ k := by rw [ht]; rfl
  edgeBatch _ _ k := by rw [ht]; rfl

/-- Recorded events by what the writer has made of them. -/
structure Parcels where
  /-- Taken by the snapshots of transactions that committed. -/
  done : List PacketEvent := []
  /-- Taken by the snapshot of the open transaction. -/
  flying : List PacketEvent := []
  /-- Recorded since the last snapshot. -/
  new : List PacketEvent := []
  /-- Taken by the snapshots of transactions that failed. -/
  lost : List PacketEvent := []

/-- Where a step from `s` to `s'` leaves the events. -/
def Parcels.step (p : Parcels) (s s' : Store) (a : Action) : Parcels :=
  if s.inTx then
    match a with
    | .commit true => { p with done := p.done ++ p.flying, flying := [] }
    | .commit false => { p with lost := p.lost ++ p.flying, flying := [] }
    | _ => { p with new := p.new ++ recorded [a] }
  else if s'.inTx then { p with flying := p.new, new := [] }
  else { p with new := p.new ++ recorded [a] }

def Parcels.all (p : Parcels) : List PacketEvent := p.done ++ p.flying ++ p.new ++ p.lost

/-- The parcels a store stands for. -/
abbrev Parcels.Inv (bucketSecs : Int) (p : Parcels) (s : Store) : Prop :=
  FlushInv bucketSecs p.done p.flying p.new p.lost s

variable {p : Parcels}

/-- A step that neither begins nor ends a transaction. -/
theorem Parcels.step_stays {s' : Store} {a : Action} (hx : s'.inTx = s.inTx)
    (hc : ∀ ok, a = .commit ok → s.inTx = false) :
    p.step s s' a = { p with new := p.new ++ recorded [a] } := by
  unfold Parcels.step
  rw [hx]
  cases hs : s.inTx with
  | false => rfl
  | true =>
    cases a with
    | commit ok =>
      rw [hc ok rfl] at hs
      cases hs
    | _ => rfl

/-- No delta is in the batch when no transaction is open. -/
theorem batch_of_not_inTx (h : s.inTx = false) : s.batch = emptyBatch := by
  unfold inTx at h
  unfold Store.batch
  split at h
  · cases h
  · rename_i hne
    cases hp : s.phase with
    | flushing fb stop => exact absurd hp (hne fb stop)
    | _ => rfl

/-- A snapshot that opens no transaction has taken nothing. -/
theorem FlushInv.snapshot_idle (h : FlushInv bucketSecs done flying new lost s) {s' : Store}
    (ht : s'.tables allCounters = (s.tables allCounters).snapshot) (hx : s'.inTx = false) :
    new = [] := by
  rw [← bucketHistory_eq_nil bucketSecs, ← cell_eq_none_iff, ← h.buckets.deltas]
  have hbatch : (s'.tables allCounters).buckets.batch = fun _ => none := by
    show counters _ s'.batch.buckets = _
    rw [batch_of_not_inTx hx]
    rfl
  rw [ht] at hbatch
  exact hbatch

variable (reg) in
/-- Events move along, and a batch that fails loses those it carried. -/
theorem FlushInv.step (h : p.Inv bucketSecs s) {a : Action} (hdrop : ∀ id, a ≠ .dropCapture id) :
    (p.step s (Store.step reg s a) a).Inv bucketSecs (Store.step reg s a)
      ∧ (p.all ++ recorded [a]).Perm (p.step s (Store.step reg s a) a).all
      ∧ ((p.step s (Store.step reg s a) a).lost = [] ↔ p.lost = [] ∧ LosesNothing s a) := by
  have hwf := h.wf.step reg a
  cases step_moves reg allCounters h.wf a with
  | record ev hr ha ht hx =>
    rw [Parcels.step_stays hx (fun ok hc => by rw [hc] at ha; cases ha), hr]
    refine ⟨h.record hwf ht, ?_, ?_⟩
    · unfold Parcels.all
      rw [List.append_assoc _ p.lost, ← List.append_assoc _ p.new, List.append_assoc _ _ p.lost]
      exact List.perm_append_comm.append_left _
    · exact (and_iff_left (fun hf => by rw [ha] at hf; cases hf)).symm
  | snapshot hr hf hb ht hx =>
    have hnil : p.flying = [] := h.flying_eq_nil.mp (by rw [hb]; rfl)
    have hkeep : p.lost = [] ↔ p.lost = [] ∧ LosesNothing s a :=
      (and_iff_left (fun ha => absurd ha hf)).symm
    have hs : FlushInv bucketSecs p.done p.new [] p.lost (Store.step reg s a) := by
      refine FlushInv.snapshot ?_ hwf ht
      rw [← hnil]
      exact h
    cases hx' : (Store.step reg s a).inTx with
    | true =>
      have hp : p.step s (Store.step reg s a) a = { p with flying := p.new, new := [] } := by
        unfold Parcels.step
        rw [hx, hx']
        rfl
      rw [hp, hr]
      refine ⟨hs, ?_, hkeep⟩
      unfold Parcels.all
      rw [hnil, List.append_nil, List.append_nil, List.append_nil]
    | false =>
      have hnew := h.snapshot_idle ht hx'
      rw [Parcels.step_stays (hx'.trans hx.symm) fun _ _ => hx, hr, List.append_nil]
      refine ⟨?_, .of_eq (List.append_nil _), hkeep⟩
      show FlushInv bucketSecs p.done p.flying p.new p.lost (Store.step reg s a)
      rw [hnew] at hs ⊢
      rw [hnil]
      exact hs
  | commit ha ht hx =>
    have hp : p.step s (Store.step reg s a) a
        = { p with done := p.done ++ p.flying, flying := [] } := by
      unfold Parcels.step
      rw [hx, ha]
      rfl
    rw [hp]
    refine ⟨h.commit hwf ht, ?_, ?_⟩
    · unfold Parcels.all
      rw [ha, show recorded [.commit true] = [] from rfl, List.append_nil, List.append_nil]
    · exact (and_iff_left (fun hf => by rw [ha] at hf; cases hf)).symm
  | rollback ha ht hx =>
    have hp : p.step s (Store.step reg s a) a
        = { p with lost := p.lost ++ p.flying, flying := [] } := by
      unfold Parcels.step
      rw [hx, ha]
      rfl
    rw [hp]
    refine ⟨h.rollback hwf ht, ?_, ?_⟩
    · unfold Parcels.all
      rw [ha, show recorded [.commit false] = [] from rfl, List.append_nil, List.append_nil,
        List.append_assoc, List.append_assoc, List.append_assoc, ← List.append_assoc p.new]
      exact List.perm_append_comm.append_left _
    · rw [List.append_eq_nil_iff, ← h.flying_eq_nil]
      exact and_congr_right fun _ => ⟨fun he _ => he, fun he => he ha⟩
  | forget id ha ht => exact absurd ha (hdrop id)
  | idle hr hf ht hx hc =>
    rw [Parcels.step_stays hx hc, hr, List.append_nil]
    refine ⟨?_, .of_eq (List.append_nil _), ?_⟩
    · exact ⟨hwf, by rw [ht]; exact h.buckets, by rw [ht]; exact h.nodes, by rw [ht]; exact h.edges,
        by rw [ht]; exact h.nodeBatch, by rw [ht]; exact h.edgeBatch⟩
    · exact (and_iff_left (fun ha => by rw [hf ha]; rfl)).symm

/-! ## Whole runs -/

/-- What became of the events of a run. -/
def parcels (reg : Registry) (bucketSecs : Int) (l : List Action) : Parcels :=
  (Run.taken (Store.step reg) (openStore bucketSecs) l).foldl
    (fun p x => p.step x.1 (Store.step reg x.1 x.2) x.2) {}

theorem parcels_concat (reg : Registry) (bucketSecs : Int) (l : List Action) (a : Action) :
    parcels reg bucketSecs (l ++ [a]) = (parcels reg bucketSecs l).step (run reg bucketSecs l)
      (Store.step reg (run reg bucketSecs l) a) a := by
  unfold parcels
  rw [Run.taken_concat, List.foldl_append]
  rfl

theorem flushInv_run (reg : Registry) (bucketSecs : Int) {l : List Action}
    (hdrop : ∀ a ∈ l, ∀ id, a ≠ .dropCapture id) :
    (parcels reg bucketSecs l).Inv bucketSecs (run reg bucketSecs l)
      ∧ (recorded l).Perm (parcels reg bucketSecs l).all
      ∧ ((parcels reg bucketSecs l).lost = []
          ↔ Run.Guarded (Store.step reg) LosesNothing (openStore bucketSecs) l) := by
  induction l using List.reverseRecOn with
  | nil => exact ⟨flushInv_init bucketSecs, .refl _, iff_of_true rfl trivial⟩
  | append_singleton l a ih =>
    obtain ⟨hI, hperm, hlost⟩ := ih fun b hb => hdrop b (List.mem_append_left _ hb)
    have hda := hdrop a (List.mem_append_right _ (List.mem_singleton_self a))
    obtain ⟨hI', hperm', hlost'⟩ := hI.step reg hda
    rw [parcels_concat]
    refine ⟨?_, ?_, ?_⟩
    · unfold run
      rw [Run.exec_concat]
      exact hI'
    · rw [recorded_append]
      exact (hperm.append_right _).trans hperm'
    · rw [hlost', hlost, Run.guarded_append]
      exact and_congr_right fun _ => (and_iff_left trivial).symm

/-- A ticker flush that commits, from an idle writer, leaves nothing to flush. -/
theorem settled_tick (hp : s.phase = .select) :
    (Store.step reg (Store.step reg s .tick) (.commit true)).Settled := by
  simp only [Store.step, hp, Store.beginFlush]
  by_cases h : s.pending = [] ∧ s.agg.snapshot.1.Empty
  · rw [if_pos h]
    refine ⟨rfl, fun fb stop hf => ?_⟩
    cases hf
  · rw [if_neg h]
    refine ⟨rfl, fun fb stop hf => ?_⟩
    cases hf

/-- Rows that miss events are not exact. -/
theorem bucketHistory_perm_ne {evs done lost : List PacketEvent} (hperm : evs.Perm (done ++ lost))
    (hlost : lost ≠ []) : cell (bucketHistory bucketSecs done) ≠ cell (bucketHistory bucketSecs evs) := by
  obtain ⟨ev, hev⟩ := List.exists_mem_of_ne_nil lost hlost
  have hall : cell (bucketHistory bucketSecs evs)
      = cell (bucketHistory bucketSecs done ++ bucketHistory bucketSecs lost) := by
    rw [← bucketHistory_append]
    exact cell_perm (hperm.map _)
  intro heq
  rw [hall] at heq
  refine cell_append_ne (k := ev.bucket bucketSecs) (fun x hx => ?_) ?_ (congrFun heq _).symm
  · obtain ⟨e, -, rfl⟩ := List.mem_map.mp hx
    exact e.counters_ne_zero
  · exact List.mem_map.mpr ⟨_, List.mem_map_of_mem hev, rfl⟩

/--
After any run, any further flush that commits leaves every row exact if and only
if no transaction of the run failed that carried something recorded since the
snapshot before it.
-/
theorem rowsExact_iff (reg : Registry) (bucketSecs : Int) {l flush : List Action}
    (hdrop : ∀ a ∈ l ++ flush, ∀ id, a ≠ .dropCapture id)
    (hrecord : recorded flush = []) (hcommit : ∀ a ∈ flush, a ≠ .commit false)
    (hsettled : (run reg bucketSecs (l ++ flush)).Settled) :
    RowsExact bucketSecs (recorded l) (run reg bucketSecs (l ++ flush)).db
      ↔ Run.Guarded (Store.step reg) LosesNothing (openStore bucketSecs) l := by
  obtain ⟨hI, hperm, hlost⟩ := flushInv_run reg bucketSecs hdrop
  unfold Parcels.all at hperm
  generalize parcels reg bucketSecs (l ++ flush) = p at hI hperm hlost
  obtain ⟨done, flying, new, lost⟩ := p
  dsimp only at hI hperm hlost
  have hflush : Run.Guarded (Store.step reg) LosesNothing (openStore bucketSecs) (l ++ flush)
      ↔ Run.Guarded (Store.step reg) LosesNothing (openStore bucketSecs) l := by
    rw [Run.guarded_append]
    refine and_iff_left ?_
    exact (Run.guarded_of_forall (p := fun a => a ≠ .commit false) _ hcommit).mono
      fun s a ha hf => absurd hf ha
  have hnew : new = [] := hI.new_eq_nil.mp hsettled.1
  have hflying : flying = [] := hI.flying_eq_nil.mp (by rw [hsettled.batch]; rfl)
  subst hnew hflying
  rw [recorded_append, hrecord, List.append_nil, List.append_nil, List.append_nil] at hperm
  rw [← hflush, ← hlost]
  constructor
  · intro ⟨hb, _, _⟩
    by_contra hne
    exact bucketHistory_perm_ne hperm hne (hI.buckets.rows.symm.trans hb)
  · intro hnil
    subst hnil
    have hn := hI.nodes rfl
    have he := hI.edges rfl
    rw [List.append_nil] at hperm hn he
    refine ⟨?_, ?_, ?_⟩
    · exact hI.buckets.rows.trans (cell_perm (hperm.map _)).symm
    · refine funext fun k => (hn.settled (fun k _ => hI.nodeBatch rfl rfl k) trivial).trans ?_
      rw [Option.or_none]
      exact congrFun (cell_perm (hperm.flatMap_right _)).symm k
    · refine funext fun k => (he.settled (fun k _ => hI.edgeBatch rfl rfl k) trivial).trans ?_
      rw [Option.or_none]
      exact congrFun (cell_perm (hperm.map _)).symm k

/-- A failed flush that held packet rows only. -/
theorem rowsExact_iff_emptyBatch :
    RowsExact 1 [onePacket] (run (Registry.ofList []) 1
      [.record onePacket, .tick, .commit true, .send onePacket, .receive, .tick, .commit false,
        .tick, .commit true]).db := by
  have h := @rowsExact_iff (Registry.ofList []) 1
    [.record onePacket, .tick, .commit true, .send onePacket, .receive, .tick, .commit false]
    [.tick, .commit true] (by simp) rfl (by simp) ⟨rfl, fun _ _ h => nomatch h⟩
  exact h.mpr ⟨nofun, nofun, nofun, nofun, nofun, nofun, fun _ => rfl, trivial⟩

/-- The bucket of a packet whose flush failed is never written. -/
theorem rowsExact_lostBucket : ¬ ∀ (reg : Registry) (bucketSecs : Int) (l flush : List Action),
    (∀ a ∈ l ++ flush, ∀ id, a ≠ .dropCapture id) → recorded flush = [] →
    (∀ a ∈ flush, a ≠ .commit false) → (run reg bucketSecs (l ++ flush)).Settled →
    RowsExact bucketSecs (recorded l) (run reg bucketSecs (l ++ flush)).db := by
  intro h
  have hrows := h (Registry.ofList []) 1 [.record onePacket, .tick, .commit false]
    [.tick, .commit true] (by simp) rfl (by simp) ⟨rfl, fun _ _ h => nomatch h⟩
  have hbucket := congrFun hrows.1 (onePacket.bucket 1)
  exact absurd hbucket (by decide)

end Etherchimp
