import Etherchimp.Proof.Windows
import Etherchimp.Replay.Reader

/-!
# Where a replay is cut

The reader cuts a file at an exact time after its first packet, the handler cuts
the stored buckets at a whole second after the first bucket. Both keep a front
part of the packets, so the two agree exactly when no packet falls between the
two cuts.
-/

namespace Etherchimp

open Tally

/-- The bucket start of a time in nanoseconds. -/
def bucketStart (bucketSecs ts : Int) : Int := (ts / 1000000000).tdiv bucketSecs * bucketSecs

theorem bucketStart_mono {bucketSecs : Int} (hwidth : 1 ≤ bucketSecs) {t t' : Int} (h : t ≤ t') :
    bucketStart bucketSecs t ≤ bucketStart bucketSecs t' := by
  have hsec : t / 1000000000 ≤ t' / 1000000000 := Int.ediv_le_ediv (by omega) h
  have hdiv := Int.tdiv_le_tdiv (c := bucketSecs) (by omega) hsec
  exact Int.mul_le_mul_of_nonneg_right hdiv (by omega)

/-! ## The reader -/

theorem loadPackets_startTime (frames : List (Option PacketInfo × Int)) {p : PacketWithTime}
    (hp : (loadPackets frames).packets.head? = some p) :
    (loadPackets frames).startTime = p.timestamp := by
  unfold loadPackets at hp ⊢
  induction frames using List.reverseRecOn with
  | nil => cases hp
  | append_singleton frames frame ih =>
    rw [List.foldl_append, List.foldl_cons, List.foldl_nil] at hp ⊢
    generalize List.foldl _ _ frames = r at ih hp ⊢
    obtain ⟨info, ts⟩ := frame
    cases info with
    | none => exact ih hp
    | some info =>
      dsimp only at hp ⊢
      cases hr : r.packets with
      | nil =>
        rw [hr, List.nil_append, List.head?_cons, Option.some.injEq] at hp
        rw [if_pos rfl, ← hp]
      | cons q rest =>
        rw [hr, List.cons_append, List.head?_cons] at hp
        rw [if_neg (List.cons_ne_nil q rest)]
        exact ih (by rw [hr]; exact hp)

/-- The timestamps never go back. -/
def Reader.Sorted (r : Reader) : Prop := r.packets.Pairwise fun p q => p.timestamp ≤ q.timestamp

/-- **The binary search finds the packets up to the target time.** -/
theorem Reader.getPacketsUpToTime_eq {r : Reader} (h : r.Sorted) (offset : Offset) :
    r.getPacketsUpToTime offset
      = r.packets.filter fun p => p.timestamp ≤ r.startTime + offset.duration := by
  unfold Reader.getPacketsUpToTime
  split
  · rename_i hnil
    rw [hnil]
    rfl
  · refine Search.take_search (h.imp fun {p q} hpq hq => ?_)
    rw [decide_eq_true_iff] at hq ⊢
    omega

/-! ## Two cuts of one list of packets -/

/-- An event without the names that were resolved for it. -/
def PacketEvent.anon (ev : PacketEvent) : PacketEvent := { ev with srcHost := "", dstHost := "" }

/-- Aggregates do not depend on names. -/
theorem aggregates_anon {evs : List PacketEvent} {nodes : List StoredNode}
    {edges : List StoredEdge} :
    Aggregates (evs.map PacketEvent.anon) nodes edges ↔ Aggregates evs nodes edges := by
  have hnodes : endpointTotals (evs.map PacketEvent.anon) = endpointTotals evs := by
    unfold endpointTotals
    rw [List.flatMap_map]
    rfl
  have hedges : edgeTotals (evs.map PacketEvent.anon) = edgeTotals evs := by
    unfold edgeTotals
    rw [List.map_map]
    rfl
  have hends : ∀ ends, (∃ ev ∈ evs.map PacketEvent.anon, ev.edge = ends)
      ↔ ∃ ev ∈ evs, ev.edge = ends := by
    intro ends
    constructor
    · intro ⟨ev, hev, he⟩
      obtain ⟨named, hmem, rfl⟩ := List.mem_map.mp hev
      exact ⟨named, hmem, he⟩
    · exact fun ⟨ev, hev, he⟩ => ⟨ev.anon, List.mem_map_of_mem hev, he⟩
  constructor
  · intro h
    refine ⟨h.nodeIDs, h.edgeIDs, ?_, ?_⟩
    · rw [← hnodes]; exact h.nodes
    · intro ends x
      rw [← hends, ← hedges]; exact h.edges ends x
  · intro h
    refine ⟨h.nodeIDs, h.edgeIDs, ?_, ?_⟩
    · rw [hnodes]; exact h.nodes
    · intro ends x
      rw [hends, hedges]; exact h.edges ends x

/-- A result is the aggregates of no longer list of packets. -/
theorem Aggregates.append_eq_nil {evs more : List PacketEvent} {nodes : List StoredNode}
    {edges : List StoredEdge} (h : Aggregates evs nodes edges)
    (h' : Aggregates (evs ++ more) nodes edges) : more = [] := by
  have hcell : cell (endpointTotals evs) = cell (endpointTotals (evs ++ more)) := by
    funext id
    exact Option.ext fun x => (h.nodes id x).symm.trans (h'.nodes id x)
  by_contra hne
  obtain ⟨ev, hev⟩ := List.exists_mem_of_ne_nil more hne
  have happ : endpointTotals (evs ++ more) = endpointTotals evs ++ endpointTotals more :=
    List.flatMap_append ..
  rw [happ] at hcell
  refine cell_append_ne (k := ev.src) (fun x hx => ?_) ?_ (congrFun hcell ev.src).symm
  · obtain ⟨e, -, hx⟩ := List.mem_flatMap.mp hx
    rcases List.mem_cons.mp hx with rfl | hx
    · exact e.load_ne_zero
    · rw [List.mem_singleton.mp hx]
      exact e.load_ne_zero
  · refine List.mem_map.mpr ⟨(ev.src, ev.load), List.mem_flatMap.mpr ⟨ev, hev, ?_⟩, rfl⟩
    exact List.mem_cons_self ..

/-- Two front parts of one list with the same aggregates are the same part. -/
theorem Aggregates.filter_eq {evs : List PacketEvent} {p q : PacketEvent → Bool}
    {nodes : List StoredNode} {edges : List StoredEdge}
    (hp : evs.Pairwise fun a b => p b = true → p a = true)
    (hq : evs.Pairwise fun a b => q b = true → q a = true)
    (h : Aggregates (evs.filter p) nodes edges) (h' : Aggregates (evs.filter q) nodes edges) :
    evs.filter p = evs.filter q := by
  rcases List.prefix_or_prefix_of_prefix (Search.filter_prefix hp) (Search.filter_prefix hq)
    with ⟨t, ht⟩ | ⟨t, ht⟩
  · rw [← ht] at h'
    rw [← ht, h.append_eq_nil h', List.append_nil]
  · rw [← ht] at h
    rw [← ht, h'.append_eq_nil h, List.append_nil]

/-- An endpoint of the packets is a node of their aggregates. -/
theorem Aggregates.named {evs evs' : List PacketEvent} {nodes : List StoredNode}
    {edges : List StoredEdge} (h : Aggregates evs nodes edges) (h' : Aggregates evs' nodes edges)
    (hnamed : ∀ ev ∈ evs', ev.named = true) : ∀ ev ∈ evs, ev.named = true := by
  have hkeys : ∀ id, id ∈ (endpointTotals evs).map Prod.fst ↔
      id ∈ (endpointTotals evs').map Prod.fst := by
    intro id
    have hcell : cell (endpointTotals evs) id = cell (endpointTotals evs') id :=
      Option.ext fun x => (h.nodes id x).symm.trans (h'.nodes id x)
    rw [← not_iff_not, ← cell_eq_none, ← cell_eq_none, hcell]
  have hne : ∀ id ∈ (endpointTotals evs).map Prod.fst, id ≠ "" := by
    intro id hid
    obtain ⟨x, hx, rfl⟩ := List.mem_map.mp ((hkeys id).mp hid)
    obtain ⟨ev, hev, hx⟩ := List.mem_flatMap.mp hx
    have hn := of_decide_eq_true (hnamed ev hev)
    rcases List.mem_cons.mp hx with rfl | hx
    · exact hn.1
    · rw [List.mem_singleton.mp hx]
      exact hn.2
  have hmem : ∀ ev ∈ evs, ∀ x ∈ [(ev.src, ev.load), (ev.dst, ev.load)],
      x.1 ∈ (endpointTotals evs).map Prod.fst := fun ev hev x hx =>
    List.mem_map_of_mem (List.mem_flatMap.mpr ⟨ev, hev, hx⟩)
  intro ev hev
  refine decide_eq_true ⟨hne _ (hmem ev hev (ev.src, ev.load) (by simp)),
    hne _ (hmem ev hev (ev.dst, ev.load) (by simp))⟩

/--
The front part `p` of a list has the aggregates of the front part `q`, less the
packets with an empty endpoint, exactly when these are the packets of `p`.
-/
theorem Aggregates.filter_iff {evs : List PacketEvent} {p q : PacketEvent → Bool}
    {nodes : List StoredNode} {edges : List StoredEdge}
    (hp : evs.Pairwise fun a b => p b = true → p a = true)
    (hq : evs.Pairwise fun a b => q b = true → q a = true)
    (h : Aggregates (evs.filter fun ev => q ev && ev.named) nodes edges) :
    Aggregates (evs.filter p) nodes edges ↔ ∀ ev ∈ evs, p ev = (q ev && ev.named) := by
  refine ⟨fun h' => ?_, fun h' => by rw [List.filter_congr h']; exact h⟩
  have hnamed : ∀ ev ∈ evs, p ev = true → ev.named = true := by
    intro ev hev hpe
    refine h'.named h (fun ev hev => ?_) ev (List.mem_filter.mpr ⟨hev, hpe⟩)
    have hand := (List.mem_filter.mp hev).2
    rw [Bool.and_eq_true] at hand
    exact hand.2
  -- among the packets with both endpoints, two front parts are compared
  have hpn : evs.filter p = (evs.filter PacketEvent.named).filter p := by
    rw [List.filter_filter]
    refine List.filter_congr fun ev hev => ?_
    cases hpe : p ev with
    | false => rfl
    | true => rw [hnamed ev hev hpe]; rfl
  have hqn : (evs.filter fun ev => q ev && ev.named) = (evs.filter PacketEvent.named).filter q :=
    List.filter_filter.symm
  rw [hpn] at h'
  rw [hqn] at h
  have heq := h'.filter_eq (hp.sublist List.filter_sublist) (hq.sublist List.filter_sublist) h
  rw [← hpn, ← hqn] at heq
  intro ev hev
  rw [Bool.eq_iff_iff]
  constructor
  · intro hpe
    have hm : ev ∈ evs.filter p := List.mem_filter.mpr ⟨hev, hpe⟩
    rw [heq] at hm
    exact (List.mem_filter.mp hm).2
  · intro hqe
    have hm : ev ∈ evs.filter fun ev => q ev && ev.named := List.mem_filter.mpr ⟨hev, hqe⟩
    rw [← heq] at hm
    exact (List.mem_filter.mp hm).2

/-! ## Where the two cuts fall -/

section Cuts

variable {reg : Registry} {bucketSecs captureID : Int} {db : DB} {r : Reader} {evs : List PacketEvent}

/-- The store recorded the reader's packets, under whatever names it resolved. -/
def Recorded (captureID : Int) (r : Reader) (evs : List PacketEvent) : Prop :=
  (evs.filter (·.captureID = captureID)).map PacketEvent.anon
    = r.packets.map (·.event captureID "" "")

/-- The handler answers with the aggregates of the packets the reader returns. -/
def CutsAgree (reg : Registry) (captureID : Int) (db : DB) (r : Reader) (offset : Offset) : Prop :=
  ∀ nodes edges, replayFromCache reg db captureID offset = some (nodes, edges) →
    Aggregates ((r.getPacketsUpToTime offset).map (·.event captureID "" "")) nodes edges

/--
A packet is in time exactly when it has both endpoints and its bucket starts
before the cut.
-/
def SameCut (bucketSecs : Int) (r : Reader) (offset : Offset) : Prop :=
  ∀ p ∈ r.packets, p.timestamp ≤ r.startTime + offset.duration ↔
    (p.info.srcIP ≠ "" ∧ p.info.dstIP ≠ "")
      ∧ bucketStart bucketSecs p.timestamp < bucketStart bucketSecs r.startTime + offset.int64 + 1

theorem Recorded.mem (h : Recorded captureID r evs) (t : Int) :
    (∃ ev ∈ evs, ev.captureID = captureID ∧ (ev.bucket bucketSecs).ts = t)
      ↔ ∃ p ∈ r.packets, bucketStart bucketSecs p.timestamp = t := by
  constructor
  · intro ⟨ev, hev, hc, ht⟩
    have hm : ev.anon ∈ (evs.filter (·.captureID = captureID)).map PacketEvent.anon :=
      List.mem_map_of_mem (List.mem_filter.mpr ⟨hev, decide_eq_true hc⟩)
    rw [h] at hm
    obtain ⟨p, hp, he⟩ := List.mem_map.mp hm
    refine ⟨p, hp, ?_⟩
    rw [← ht]
    exact congrArg (fun e => (PacketEvent.bucket e bucketSecs).ts) he
  · intro ⟨p, hp, ht⟩
    have hm : p.event captureID "" "" ∈ r.packets.map (·.event captureID "" "") :=
      List.mem_map_of_mem hp
    rw [← h] at hm
    obtain ⟨ev, hev, he⟩ := List.mem_map.mp hm
    obtain ⟨hev, hc⟩ := List.mem_filter.mp hev
    refine ⟨ev, hev, of_decide_eq_true hc, ?_⟩
    rw [← ht]
    exact congrArg (fun e => (PacketEvent.bucket e bucketSecs).ts) he

/-- The first bucket is that of the first packet. -/
theorem bucketBounds_first (hwidth : 1 ≤ bucketSecs)
    (hb : Tally.counters BucketRow.counters db.flowBuckets = cell (bucketHistory bucketSecs evs))
    (hrec : Recorded captureID r evs) (hsorted : r.Sorted) {p : PacketWithTime}
    (hp : r.packets.head? = some p) :
    (db.bucketBounds captureID).1 = bucketStart bucketSecs p.timestamp := by
  have hmem : ∀ t, t ∈ ((db.flowBuckets.entries.filter fun e => e.1.captureID = captureID).map
      fun e => e.1.ts) ↔ ∃ p ∈ r.packets, bucketStart bucketSecs p.timestamp = t :=
    fun t => (DB.mem_bucketTimes hb t).trans (hrec.mem t)
  have hmin : ((db.flowBuckets.entries.filter fun e => e.1.captureID = captureID).map
      fun e => e.1.ts).min? = some (bucketStart bucketSecs p.timestamp) := by
    obtain ⟨rest, hrest⟩ : ∃ rest, r.packets = p :: rest := List.head?_eq_some_iff.mp hp
    refine List.min?_eq_some_iff.mpr ⟨(hmem _).mpr ⟨p, ?_, rfl⟩, fun t ht => ?_⟩
    · rw [hrest]
      exact List.mem_cons_self ..
    · obtain ⟨q, hq, rfl⟩ := (hmem t).mp ht
      refine bucketStart_mono hwidth ?_
      unfold Reader.Sorted at hsorted
      rw [hrest, List.pairwise_cons] at hsorted
      rw [hrest] at hq
      rcases List.mem_cons.mp hq with rfl | hq
      · exact Int.le_refl _
      · exact hsorted.1 q hq
  unfold DB.bucketBounds
  dsimp only
  rw [hmin]
  rfl

theorem bucketBounds_empty
    (hb : Tally.counters BucketRow.counters db.flowBuckets = cell (bucketHistory bucketSecs evs))
    (hrec : Recorded captureID r evs) (hnil : r.packets = []) :
    (db.bucketBounds captureID).1 = 0 := by
  have htimes : ((db.flowBuckets.entries.filter fun e => e.1.captureID = captureID).map
      fun e => e.1.ts) = [] := by
    refine List.eq_nil_iff_forall_not_mem.mpr fun t ht => ?_
    obtain ⟨p, hp, -⟩ := (hrec.mem t).mp ((DB.mem_bucketTimes hb t).mp ht)
    rw [hnil] at hp
    cases hp
  unfold DB.bucketBounds
  dsimp only
  rw [htimes]
  rfl

/-- A window from the first bucket, in terms of the reader's packets. -/
theorem Recorded.window (reg : Registry) (hrec : Recorded captureID r evs)
    (hb : Tally.counters BucketRow.counters db.flowBuckets = cell (bucketHistory bucketSecs evs))
    (hclean : ∀ p ∈ r.packets, SepFree p.info.srcIP ∧ SepFree p.info.dstIP) {first : Int}
    (hfirst : (db.bucketBounds captureID).1 = first) (cut : Int) :
    Aggregates ((r.packets.map (·.event captureID "" "")).filter fun ev =>
        decide (bucketStart bucketSecs ev.ts < cut) && ev.named)
      (db.windowAggregates reg captureID first cut).1
      (db.windowAggregates reg captureID first cut).2 := by
  have hevs : ∀ ev ∈ evs, ev.captureID = captureID → ev.Clean := by
    intro ev hev hc
    have hm : ev.anon ∈ r.packets.map (·.event captureID "" "") := by
      rw [← hrec]
      exact List.mem_map_of_mem (List.mem_filter.mpr ⟨hev, decide_eq_true hc⟩)
    obtain ⟨p, hp, he⟩ := List.mem_map.mp hm
    have hsrc : p.info.srcIP = ev.src := congrArg PacketEvent.src he
    have hdst : p.info.dstIP = ev.dst := congrArg PacketEvent.dst he
    exact ⟨hsrc ▸ (hclean p hp).1, hdst ▸ (hclean p hp).2⟩
  have hagg : Aggregates
      (evs.filter fun ev => ev.inWindow bucketSecs captureID first cut && ev.named)
      (db.windowAggregates reg captureID first cut).1
      (db.windowAggregates reg captureID first cut).2 :=
    DB.scanRows_aggregates reg hb hevs (.refl _)
  rw [← aggregates_anon] at hagg
  have hsame : (evs.filter fun ev => ev.inWindow bucketSecs captureID first cut && ev.named).map
      PacketEvent.anon = (r.packets.map (·.event captureID "" "")).filter fun ev =>
        decide (bucketStart bucketSecs ev.ts < cut) && ev.named := by
    rw [← hrec, List.filter_map, List.filter_filter]
    refine congrArg (List.map PacketEvent.anon) (List.filter_congr fun ev hev => ?_)
    rw [Bool.eq_iff_iff, Bool.and_eq_true, Bool.and_eq_true, Function.comp_apply,
      Bool.and_eq_true, decide_eq_true_iff, decide_eq_true_iff]
    unfold PacketEvent.inWindow
    rw [decide_eq_true_iff]
    -- no bucket of the capture starts before the first
    have hlo : ev.captureID = captureID → first ≤ bucketStart bucketSecs ev.ts := by
      intro hc
      have hle := (DB.bucketBounds_mem hb hev).1
      rw [hc, hfirst] at hle
      exact hle
    exact ⟨fun h => ⟨⟨h.1.2.2, h.2⟩, h.1.1⟩, fun h => ⟨⟨h.2, hlo h.2, h.1.1⟩, h.1.2⟩⟩
  rw [hsame] at hagg
  exact hagg

/-- The condition on the packets as events. -/
theorem sameCut_iff (captureID : Int) (r : Reader) (offset : Offset) :
    (∀ ev ∈ r.packets.map (·.event captureID "" ""),
        decide (ev.ts ≤ r.startTime + offset.duration)
          = (decide (bucketStart bucketSecs ev.ts
              < bucketStart bucketSecs r.startTime + offset.int64 + 1) && ev.named))
      ↔ SameCut bucketSecs r offset := by
  unfold SameCut
  simp only [List.mem_map, forall_exists_index, and_imp, forall_apply_eq_imp_iff₂]
  refine forall₂_congr fun p _ => ?_
  rw [Bool.eq_iff_iff, decide_eq_true_iff, Bool.and_eq_true, decide_eq_true_iff]
  unfold PacketEvent.named
  rw [decide_eq_true_iff]
  exact iff_congr Iff.rfl and_comm

/-- **The cuts agree exactly when they keep the same packets**, or nothing is read at all. -/
theorem cutsAgree_iff (reg : Registry) (hwidth : 1 ≤ bucketSecs)
    (hb : Tally.counters BucketRow.counters db.flowBuckets = cell (bucketHistory bucketSecs evs))
    (hrec : Recorded captureID r evs) (hsorted : r.Sorted)
    (hstart : ∀ p, r.packets.head? = some p → r.startTime = p.timestamp)
    (hclean : ∀ p ∈ r.packets, SepFree p.info.srcIP ∧ SepFree p.info.dstIP) (offset : Offset) :
    CutsAgree reg captureID db r offset
      ↔ bucketStart bucketSecs r.startTime = 0 ∨ SameCut bucketSecs r offset := by
  have hnothing : (db.bucketBounds captureID).1 = 0 → CutsAgree reg captureID db r offset := by
    intro hfirst nodes edges h
    unfold replayFromCache at h
    dsimp only at h
    rw [if_pos hfirst] at h
    cases h
  cases hne : r.packets.head? with
  | none =>
    have hnil : r.packets = [] := List.head?_eq_none_iff.mp hne
    refine iff_of_true (hnothing (bucketBounds_empty hb hrec hnil)) (Or.inr fun p hp => ?_)
    rw [hnil] at hp
    cases hp
  | some p₀ =>
    have hfirst := bucketBounds_first hwidth hb hrec hsorted hne
    rw [← hstart p₀ hne] at hfirst
    by_cases hzero : bucketStart bucketSecs r.startTime = 0
    · exact iff_of_true (hnothing (hfirst.trans hzero)) (Or.inl hzero)
    · rw [or_iff_right hzero, ← sameCut_iff captureID]
      have hwindow := hrec.window reg hb hclean hfirst
        (bucketStart bucketSecs r.startTime + offset.int64 + 1)
      have hprefix : (r.getPacketsUpToTime offset).map (·.event captureID "" "")
          = (r.packets.map (·.event captureID "" "")).filter fun ev =>
              ev.ts ≤ r.startTime + offset.duration := by
        rw [Reader.getPacketsUpToTime_eq hsorted, List.filter_map]
        rfl
      have hts : (r.packets.map (·.event captureID "" "")).Pairwise fun a b => a.ts ≤ b.ts := by
        rw [List.pairwise_map]
        exact hsorted
      rw [← hwindow.filter_iff (hts.imp fun {a b} hab hb => by rw [decide_eq_true_iff] at hb ⊢; omega)
        (hts.imp fun {a b} hab hb => by
          have hmono := bucketStart_mono hwidth hab
          rw [decide_eq_true_iff] at hb ⊢
          omega)]
      unfold CutsAgree replayFromCache
      dsimp only
      rw [hfirst, if_neg hzero, hprefix]
      constructor
      · exact fun h => h _ _ rfl
      · intro h nodes edges he
        rw [Option.some.injEq] at he
        rw [he] at h
        exact h

end Cuts

/-! ## Whole runs -/

/--
After any run of the store in which every transaction commits and the last flush
is done, the cached replay of a file whose packets were all recorded shows the
packets the parsed replay shows exactly when the two cuts keep the same packets.
-/
theorem replayCut_iff (reg : Registry) {bucketSecs captureID : Int} (hwidth : 1 ≤ bucketSecs)
    {l : List Store.Action} (hdrop : ∀ a ∈ l, ∀ id, a ≠ .dropCapture id)
    (hcommit : ∀ a ∈ l, a ≠ .commit false) (hsettled : (Store.run reg bucketSecs l).Settled)
    {frames : List (Option PacketInfo × Int)}
    (hrec : Recorded captureID (loadPackets frames) (Store.recorded l))
    (hsorted : (loadPackets frames).Sorted)
    (hclean : ∀ p ∈ (loadPackets frames).packets, SepFree p.info.srcIP ∧ SepFree p.info.dstIP)
    (offset : Offset) :
    CutsAgree reg captureID (Store.run reg bucketSecs l).db (loadPackets frames) offset
      ↔ bucketStart bucketSecs (loadPackets frames).startTime = 0
        ∨ SameCut bucketSecs (loadPackets frames) offset :=
  cutsAgree_iff reg hwidth (Store.rowsExact_settled reg bucketSecs hdrop hcommit hsettled).1 hrec
    hsorted (fun _ hp => loadPackets_startTime frames hp) hclean offset

/-- Two packets in one second, the first of them not at its start. -/
def twoFrames : List (Option PacketInfo × Int) :=
  [(some { srcIP := "a", dstIP := "b", length := 60 }, 10200000000),
    (some { srcIP := "b", dstIP := "a", length := 40 }, 10500000000)]

/-- Recording them, and one flush. -/
def twoRecords : List Store.Action :=
  [.record { captureID := 1, ts := 10200000000, src := "a", dst := "b", length := 60 },
    .record { captureID := 1, ts := 10500000000, src := "b", dst := "a", length := 40 },
    .tick, .commit true]

theorem twoRecords_settled : (Store.run (Registry.ofList []) 1 twoRecords).Settled := by
  have hphase : ∀ s : Store, s.phase = .select →
      (Run.exec (Store.step (Registry.ofList [])) s twoRecords).Settled := by
    intro s hs
    simp only [twoRecords, Run.exec_cons, Run.exec_nil]
    refine settled_tick ?_
    rw [Store.record_phase, Store.record_phase, hs]
  exact hphase (openStore 1) rfl

theorem twoRecords_recorded :
    Recorded 1 (loadPackets twoFrames) (Store.recorded twoRecords) := by
  unfold Recorded
  decide

theorem twoFrames_clean :
    ∀ p ∈ (loadPackets twoFrames).packets, SepFree p.info.srcIP ∧ SepFree p.info.dstIP := by
  decide

theorem twoFrames_sorted : (loadPackets twoFrames).Sorted := by
  unfold Reader.Sorted
  decide

/-- One second in, both cuts keep both packets. -/
theorem replayCut_oneSecond :
    CutsAgree (Registry.ofList []) 1 (Store.run (Registry.ofList []) 1 twoRecords).db
      (loadPackets twoFrames) ⟨1, 1000000000⟩ := by
  refine (replayCut_iff (Registry.ofList []) (by decide) (by simp [twoRecords])
    (by simp [twoRecords]) twoRecords_settled twoRecords_recorded twoFrames_sorted
    twoFrames_clean ⟨1, 1000000000⟩).mpr (Or.inr ?_)
  unfold SameCut
  decide

/-- At offset 0 the reader returns the first packet, and the window of its whole second both. -/
theorem replayCut_secondPacket :
    ¬ ∀ (reg : Registry) (bucketSecs captureID : Int) (l : List Store.Action)
      (frames : List (Option PacketInfo × Int)) (offset : Offset), 1 ≤ bucketSecs →
      (∀ a ∈ l, ∀ id, a ≠ .dropCapture id) → (∀ a ∈ l, a ≠ .commit false) →
      (Store.run reg bucketSecs l).Settled →
      Recorded captureID (loadPackets frames) (Store.recorded l) → (loadPackets frames).Sorted →
      (∀ p ∈ (loadPackets frames).packets, SepFree p.info.srcIP ∧ SepFree p.info.dstIP) →
      0 ≤ offset.int64 ∧ 0 ≤ offset.duration →
      CutsAgree reg captureID (Store.run reg bucketSecs l).db (loadPackets frames) offset := by
  intro h
  have hagree := h (Registry.ofList []) 1 1 twoRecords twoFrames ⟨0, 0⟩ (by decide)
    (by simp [twoRecords]) (by simp [twoRecords]) twoRecords_settled twoRecords_recorded
    twoFrames_sorted twoFrames_clean (by decide)
  have hexact := Store.rowsExact_settled (Registry.ofList []) 1 (l := twoRecords)
    (by simp [twoRecords]) (by simp [twoRecords]) twoRecords_settled
  have hcut := (cutsAgree_iff (Registry.ofList []) (by decide) hexact.1 twoRecords_recorded
    twoFrames_sorted (fun _ hp => loadPackets_startTime twoFrames hp) twoFrames_clean ⟨0, 0⟩).mp
    hagree
  unfold SameCut at hcut
  revert hcut
  decide

end Etherchimp
