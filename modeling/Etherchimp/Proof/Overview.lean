import Etherchimp.Proof.Windows
import Etherchimp.Store.Overview

/-!
# The overview adds nothing and drops nothing

Whatever step is asked for, the series has one point for each step a packet written so
far falls into, with that step's packets and bytes, in the order of time. A packet is
placed by its bucket and not by its own time, so a point covers the step that starts at
it only when the step is a multiple of the bucket.
-/

namespace Etherchimp

open Tally

/-- The step width the query runs with. -/
def usedStep (stepSec : Int) : Int := if stepSec ≤ 0 then 1 else stepSec

theorem usedStep_pos (stepSec : Int) : 0 < usedStep stepSec := by
  unfold usedStep
  split <;> omega

/-- The step a packet is shown at. -/
def PacketEvent.shownAt (bucketSecs stepSec : Int) (ev : PacketEvent) : Int :=
  (ev.bucket bucketSecs).ts.tdiv (usedStep stepSec) * usedStep stepSec

def OverviewPoint.load (p : OverviewPoint) : Load := (p.packets, p.bytes)

/-- The overview of a capture with these packets. -/
structure OverviewOf (bucketSecs stepSec : Int) (mine : List PacketEvent)
    (overview : List OverviewPoint × Int × Int) : Prop where
  sorted : overview.1.Pairwise fun a b => a.t < b.t
  points : ∀ p, p ∈ overview.1 ↔ (∃ ev ∈ mine, ev.shownAt bucketSecs stepSec = p.t)
    ∧ p.load = total PacketEvent.load (fun ev => ev.shownAt bucketSecs stepSec = p.t) mine
  /-- The same for every step. -/
  sum : (overview.1.map OverviewPoint.load).sum = (mine.map PacketEvent.load).sum
  bounds : ∀ ev ∈ mine, overview.2.1 ≤ (ev.bucket bucketSecs).ts
    ∧ (ev.bucket bucketSecs).ts ≤ overview.2.2
  empty : mine = [] → overview = ([], 0, 0)
  covers : 0 < bucketSecs → bucketSecs ∣ usedStep stepSec → ∀ ev ∈ mine, 0 ≤ ev.unix →
    ∃ p ∈ overview.1, p.t ≤ ev.unix ∧ ev.unix < p.t + usedStep stepSec

variable {bucketSecs captureID stepSec : Int} {evs : List PacketEvent} {db : DB}

/-- A floor to the bucket does not change a floor to a multiple of it. -/
theorem shownAt_le {ev : PacketEvent} (hpos : 0 < bucketSecs) (hdvd : bucketSecs ∣ usedStep stepSec)
    (hunix : 0 ≤ ev.unix) : ev.shownAt bucketSecs stepSec ≤ ev.unix
      ∧ ev.unix < ev.shownAt bucketSecs stepSec + usedStep stepSec := by
  obtain ⟨n, hn⟩ := hdvd
  have hstep := usedStep_pos stepSec
  unfold PacketEvent.shownAt PacketEvent.bucket
  dsimp only
  rw [Int.tdiv_eq_ediv_of_nonneg hunix]
  have hfloor : 0 ≤ ev.unix / bucketSecs * bucketSecs :=
    Int.mul_nonneg (Int.ediv_nonneg hunix hpos.le) hpos.le
  rw [Int.tdiv_eq_ediv_of_nonneg hfloor, hn, ← Int.ediv_ediv_of_nonneg hpos.le,
    Int.mul_ediv_cancel _ hpos.ne', Int.ediv_ediv_of_nonneg hpos.le, ← hn]
  have hmod := Int.emod_nonneg ev.unix hstep.ne'
  have hlt := Int.emod_lt_of_pos ev.unix hstep
  have hdiv := Int.ediv_mul_add_emod ev.unix (usedStep stepSec)
  omega

/-- The query has one row for each step. -/
theorem DB.overviewRows_load
    (hb : counters BucketRow.counters db.flowBuckets = cell (bucketHistory bucketSecs evs)) :
    counters BucketRow.load (db.overviewRows captureID (usedStep stepSec))
      = cell ((evs.filter (·.captureID = captureID)).map
          fun ev => (ev.shownAt bucketSecs stepSec, ev.load)) := by
  have hcollect := counters_collect (f := BucketRow.load) (g := BucketRow.load) (u := sumRow)
    ((db.flowBuckets.entries.filter fun e => e.1.captureID = captureID).map fun e =>
      (e.1.ts.tdiv (usedStep stepSec) * usedStep stepSec, e.2)) (fun _ => rfl) fun _ _ => rfl
  refine hcollect.trans (funext fun k => ?_)
  have hrows := cell_rows (w := PacketEvent.counters) hb
    (p := fun k => decide (k.captureID = captureID)) (.refl _)
    (fun k => k.ts.tdiv (usedStep stepSec) * usedStep stepSec) (AddMonoidHom.fst Load (Load × Load)) k
  rw [List.map_map] at hrows ⊢
  exact hrows

theorem DB.mem_overview
    (hb : counters BucketRow.counters db.flowBuckets = cell (bucketHistory bucketSecs evs))
    (p : OverviewPoint) : p ∈ (db.timelineOverview captureID stepSec).1
      ↔ cell ((evs.filter (·.captureID = captureID)).map
          fun ev => (ev.shownAt bucketSecs stepSec, ev.load)) p.t = some p.load := by
  rw [← DB.overviewRows_load hb]
  unfold DB.timelineOverview counters
  rw [List.mem_insertionSort, List.mem_map, Option.map_eq_some_iff]
  constructor
  · rintro ⟨e, he, rfl⟩
    exact ⟨e.2, (KeyedMap.mem_entries_iff _ e.1 e.2).mp he, rfl⟩
  · rintro ⟨r, hr, hload⟩
    refine ⟨⟨p.t, r⟩, (KeyedMap.mem_entries_iff _ p.t r).mpr hr, ?_⟩
    obtain ⟨hpackets, hbytes⟩ := Prod.mk.inj hload
    cases p
    exact OverviewPoint.mk.injEq .. ▸ ⟨rfl, hpackets, hbytes⟩

theorem DB.overview_sorted (db : DB) (captureID stepSec : Int) :
    (db.timelineOverview captureID stepSec).1.Pairwise fun a b => a.t < b.t := by
  unfold DB.timelineOverview
  dsimp only
  generalize db.overviewRows captureID _ = rows
  have hkeys : ((rows.entries.map fun e =>
      ({ t := e.1, packets := e.2.packets, bytes := e.2.bytes } : OverviewPoint)).map
        OverviewPoint.t).Nodup := by
    rw [List.map_map]
    exact rows.nodupKeys
  have hle := List.pairwise_insertionSort (fun a b : OverviewPoint => a.t ≤ b.t) (rows.entries.map
    fun e => ({ t := e.1, packets := e.2.packets, bytes := e.2.bytes } : OverviewPoint))
  have hperm := List.perm_insertionSort (fun a b : OverviewPoint => a.t ≤ b.t) (rows.entries.map
    fun e => ({ t := e.1, packets := e.2.packets, bytes := e.2.bytes } : OverviewPoint))
  have hne := List.pairwise_map.mp ((hperm.map OverviewPoint.t).nodup_iff.mpr hkeys)
  exact (hle.and hne).imp fun h => lt_of_le_of_ne h.1 h.2

/-- Buckets that hold a history give its overview, capture by capture. -/
theorem DB.overview_of
    (hb : counters BucketRow.counters db.flowBuckets = cell (bucketHistory bucketSecs evs)) :
    OverviewOf bucketSecs stepSec (evs.filter (·.captureID = captureID))
      (db.timelineOverview captureID stepSec) := by
  have hsorted := db.overview_sorted captureID stepSec
  have hpoints : ∀ p, p ∈ (db.timelineOverview captureID stepSec).1
      ↔ (∃ ev ∈ evs.filter (·.captureID = captureID), ev.shownAt bucketSecs stepSec = p.t)
        ∧ p.load = total PacketEvent.load (fun ev => ev.shownAt bucketSecs stepSec = p.t)
            (evs.filter (·.captureID = captureID)) := by
    intro p
    rw [DB.mem_overview hb, cell_eq_some, List.map_map, total_map, eq_comm (b := p.load)]
    exact and_congr_left fun _ => List.mem_map
  generalize hmine : evs.filter (·.captureID = captureID) = mine at *
  have hshown : ∀ ev ∈ mine, ∃ p ∈ (db.timelineOverview captureID stepSec).1,
      p.t = ev.shownAt bucketSecs stepSec := by
    intro ev hev
    let load := total PacketEvent.load
      (fun x => x.shownAt bucketSecs stepSec = ev.shownAt bucketSecs stepSec) mine
    exact ⟨⟨ev.shownAt bucketSecs stepSec, load.1, load.2⟩,
      (hpoints _).mpr ⟨⟨ev, hev, rfl⟩, rfl⟩, rfl⟩
  refine ⟨hsorted, hpoints, ?_, ?_, ?_, ?_⟩
  · have hload : ∀ p ∈ (db.timelineOverview captureID stepSec).1, p.load
        = total PacketEvent.load (fun ev => ev.shownAt bucketSecs stepSec = p.t) mine :=
      fun p hp => ((hpoints p).mp hp).2
    have hnodup : ((db.timelineOverview captureID stepSec).1.map OverviewPoint.t).Nodup :=
      List.pairwise_map.mpr (hsorted.imp fun h => ne_of_lt h)
    rw [List.map_congr_left hload, ← total_classes (PacketEvent.shownAt bucketSecs stepSec) hnodup,
      List.map_map]
    · rfl
    · intro ev hev
      obtain ⟨p, hp, ht⟩ := hshown ev hev
      exact List.mem_map.mpr ⟨p, hp, ht⟩
  · intro ev hev
    rw [← hmine] at hev
    obtain ⟨hin, hc⟩ := List.mem_filter.mp hev
    have hbounds := DB.bucketBounds_mem hb hin
    rw [of_decide_eq_true hc] at hbounds
    exact hbounds
  · intro hnil
    have hnone : (db.timelineOverview captureID stepSec).1 = [] := by
      rw [List.eq_nil_iff_forall_not_mem]
      intro p hp
      obtain ⟨⟨ev, hev, -⟩, -⟩ := (hpoints p).mp hp
      rw [hnil] at hev
      cases hev
    have hts : ((db.flowBuckets.entries.filter fun e => e.1.captureID = captureID).map
        fun e => e.1.ts) = [] := by
      rw [List.eq_nil_iff_forall_not_mem]
      intro t ht
      obtain ⟨ev, hev, hc, -⟩ := (DB.mem_bucketTimes hb t).mp ht
      have hin : ev ∈ mine := hmine ▸ List.mem_filter.mpr ⟨hev, decide_eq_true hc⟩
      rw [hnil] at hin
      cases hin
    refine Prod.ext hnone ?_
    show db.bucketBounds captureID = (0, 0)
    unfold DB.bucketBounds
    rw [hts]
    rfl
  · intro hpos hdvd ev hev hunix
    obtain ⟨p, hp, ht⟩ := hshown ev hev
    have hle := shownAt_le hpos hdvd hunix
    rw [← ht] at hle
    exact ⟨p, hp, hle⟩

namespace Store

variable {reg : Registry} {l : List Action}

/--
At any moment of a run the overview of any capture at any width is that of the packets
written, those the snapshots of the committed transactions took. The other recorded packets
are in the open transaction, wait for the next snapshot or went with a transaction that
failed; once everything is flushed and nothing failed there are none.
-/
theorem overview_run (reg : Registry) (bucketSecs : Int)
    (hdrop : ∀ a ∈ l, ∀ id, a ≠ .dropCapture id) :
    (recorded l).Perm ((parcels reg bucketSecs l).done ++ (parcels reg bucketSecs l).flying
        ++ (parcels reg bucketSecs l).new ++ (parcels reg bucketSecs l).lost)
      ∧ (∀ captureID stepSec, OverviewOf bucketSecs stepSec
          ((parcels reg bucketSecs l).done.filter (·.captureID = captureID))
          ((run reg bucketSecs l).db.timelineOverview captureID stepSec))
      ∧ ((run reg bucketSecs l).Settled → (∀ a ∈ l, a ≠ .commit false) →
        (recorded l).Perm (parcels reg bucketSecs l).done) := by
  obtain ⟨hI, hperm, hlost⟩ := flushInv_run reg bucketSecs hdrop
  refine ⟨hperm, fun captureID stepSec => DB.overview_of hI.buckets.rows, fun hs hcommit => ?_⟩
  have hnew : (parcels reg bucketSecs l).new = [] := hI.new_eq_nil.mp hs.1
  have hflying : (parcels reg bucketSecs l).flying = [] :=
    hI.flying_eq_nil.mp (by rw [hs.batch]; rfl)
  have hnone : (parcels reg bucketSecs l).lost = [] := by
    refine hlost.mpr ?_
    exact (Run.guarded_of_forall (p := fun a => a ≠ .commit false) _ hcommit).mono
      fun s a ha hf => absurd hf ha
  unfold Parcels.all at hperm
  rw [hnew, hflying, hnone, List.append_nil, List.append_nil, List.append_nil] at hperm
  exact hperm

/-- Two packets in two buckets of ten seconds, and a third whose transaction fails. -/
def minuteRun : List Action :=
  [.record onePacket, .record { onePacket with ts := 15000000000, length := 40 }, .tick,
    .commit true, .record onePacket, .tick, .commit false]

theorem overview_run_minute :
    (parcels (Registry.ofList []) 10 minuteRun).done.length = 2
      ∧ (recorded minuteRun).Perm ((parcels (Registry.ofList []) 10 minuteRun).done
        ++ (parcels (Registry.ofList []) 10 minuteRun).flying
        ++ (parcels (Registry.ofList []) 10 minuteRun).new
        ++ (parcels (Registry.ofList []) 10 minuteRun).lost)
      ∧ (∀ captureID stepSec, OverviewOf 10 stepSec
          ((parcels (Registry.ofList []) 10 minuteRun).done.filter (·.captureID = captureID))
          ((run (Registry.ofList []) 10 minuteRun).db.timelineOverview captureID stepSec))
      ∧ ((run (Registry.ofList []) 10 minuteRun).Settled → (∀ a ∈ minuteRun, a ≠ .commit false) →
        (recorded minuteRun).Perm (parcels (Registry.ofList []) 10 minuteRun).done) :=
  ⟨by decide, overview_run (l := minuteRun) (Registry.ofList []) 10 (by simp [minuteRun])⟩

end Store

end Etherchimp
