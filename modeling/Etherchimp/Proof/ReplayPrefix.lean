import Etherchimp.Proof.ReplayCut

/-!
# The time prefix of a replay

The reader cuts its packets, which stand in file order, by a binary search on
their timestamps. The cut is the packets up to the target time exactly when none
of them stands behind a later one; so a file is cut exactly at every offset, and
whole at its duration and a second, exactly when its timestamps never go back.
-/

namespace Etherchimp

namespace Reader

/-- The reader returns the packets up to the offset, in file order. -/
def ExactAt (r : Reader) (offset : Offset) : Prop :=
  r.getPacketsUpToTime offset
    = r.packets.filter fun p => p.timestamp ≤ r.startTime + offset.duration

/-- No packet up to the offset stands behind a later one. -/
def FrontAt (r : Reader) (offset : Offset) : Prop :=
  r.packets.Pairwise fun p q =>
    q.timestamp ≤ r.startTime + offset.duration → p.timestamp ≤ r.startTime + offset.duration

/-- The offset that stands for all packets returns every packet. -/
def FullIsAll (r : Reader) : Prop :=
  ∀ offset : Offset, offset.duration = r.getDuration + 1000000000 →
    r.getPacketsUpToTime offset = r.packets

theorem exactAt_iff (r : Reader) (offset : Offset) : r.ExactAt offset ↔ r.FrontAt offset := by
  unfold ExactAt FrontAt getPacketsUpToTime
  by_cases hnil : r.packets = []
  · rw [if_pos hnil, hnil]
    exact iff_of_true rfl List.Pairwise.nil
  · rw [if_neg hnil]
    dsimp only
    rw [Search.take_search_iff]
    simp only [decide_eq_true_iff]

/-- Every offset cuts a front part exactly when the timestamps never go back. -/
theorem frontAt_all_iff (r : Reader) : (∀ offset, r.FrontAt offset) ↔ r.Sorted := by
  constructor
  · intro h
    -- the offset of the later packet itself shows the earlier one is no later
    rw [Sorted, List.pairwise_iff_getElem]
    intro i j hi hj hij
    have hcut := List.pairwise_iff_getElem.mp
      (h ⟨0, r.packets[j].timestamp - r.startTime⟩) i j hi hj hij
    dsimp only at hcut
    omega
  · intro h offset
    exact h.imp fun {p q} hpq hq => by omega

end Reader

/-- The last packet sets the end time. -/
theorem loadPackets_endTime (frames : List (Option PacketInfo × Int)) {p : PacketWithTime}
    (hp : (loadPackets frames).packets.getLast? = some p) :
    (loadPackets frames).endTime = p.timestamp := by
  unfold loadPackets at hp ⊢
  induction frames using List.reverseRecOn with
  | nil => cases hp
  | append_singleton frames frame ih =>
    rw [List.foldl_append, List.foldl_cons, List.foldl_nil] at hp ⊢
    generalize List.foldl _ _ frames = r at ih hp ⊢
    obtain ⟨info, ts⟩ := frame
    cases info with
    | none => exact ih hp
    | some info =>
      dsimp only at hp ⊢
      rw [List.getLast?_concat, Option.some.injEq] at hp
      rw [← hp]

/-- In order, an offset no earlier than the last packet stands for all of them. -/
theorem Reader.Sorted.getPacketsUpToTime_all {frames : List (Option PacketInfo × Int)}
    (h : (loadPackets frames).Sorted) {offset : Offset}
    (hoff : (loadPackets frames).getDuration ≤ offset.duration) :
    (loadPackets frames).getPacketsUpToTime offset = (loadPackets frames).packets := by
  rw [Reader.getPacketsUpToTime_eq h, List.filter_eq_self]
  intro p hp
  rw [decide_eq_true_iff]
  cases hlast : (loadPackets frames).packets.getLast? with
  | none =>
    rw [List.getLast?_eq_none_iff.mp hlast] at hp
    cases hp
  | some last =>
    have hend := loadPackets_endTime frames hlast
    have hle : p.timestamp ≤ last.timestamp := by
      obtain ⟨front, hfront⟩ := List.getLast?_eq_some_iff.mp hlast
      unfold Reader.Sorted at h
      rw [hfront, List.pairwise_append] at h
      rw [hfront, List.mem_append, List.mem_singleton] at hp
      rcases hp with hp | rfl
      · exact h.2.2 p hp last (List.mem_singleton_self _)
      · exact Int.le_refl _
    unfold Reader.getDuration at hoff
    omega

theorem Reader.Sorted.fullIsAll {frames : List (Option PacketInfo × Int)}
    (h : (loadPackets frames).Sorted) : (loadPackets frames).FullIsAll :=
  fun _ hoff => h.getPacketsUpToTime_all (by omega)

/--
**A replay is cut exactly where its packets are in order.** One offset is exact
when no packet up to it stands behind a later one; all offsets are, and the one
that stands for all packets returns them all, when the timestamps never go back.
-/
theorem replayPrefix_iff (frames : List (Option PacketInfo × Int)) :
    let r := loadPackets frames
    (∀ offset, r.ExactAt offset ↔ r.FrontAt offset)
    ∧ ((∀ offset, r.ExactAt offset) ∧ r.FullIsAll ↔ r.Sorted) := by
  refine ⟨(loadPackets frames).exactAt_iff, fun h => ?_, fun h => ⟨fun offset => ?_, h.fullIsAll⟩⟩
  · exact (Reader.frontAt_all_iff _).mp fun offset => (Reader.exactAt_iff _ offset).mp (h.1 offset)
  · exact (Reader.exactAt_iff _ offset).mpr ((Reader.frontAt_all_iff _).mpr h offset)

/-- Three frames of a merged capture, the second of them ten seconds late. -/
def mergedFrames : List (Option PacketInfo × Int) :=
  [(some { srcIP := "a", dstIP := "b", length := 60 }, 10000000000),
    (some { srcIP := "a", dstIP := "c", length := 60 }, 30000000000),
    (some { srcIP := "b", dstIP := "a", length := 40 }, 20000000000)]

/-- The offset that stands for all packets returns the first of the three. -/
theorem replayPrefix_merged :
    let r := loadPackets mergedFrames
    (r.getPacketsUpToTime ⟨11, r.getDuration + 1000000000⟩).length = 1 ∧ r.packets.length = 3
    ∧ ¬ r.ExactAt ⟨11, r.getDuration + 1000000000⟩ ∧ ¬ r.FullIsAll := by
  have hone : ((loadPackets mergedFrames).getPacketsUpToTime
      ⟨11, (loadPackets mergedFrames).getDuration + 1000000000⟩).length = 1 := by decide
  refine ⟨hone, by decide, fun h => ?_, fun h => ?_⟩
  · have hlen := congrArg List.length h
    rw [hone] at hlen
    exact absurd hlen (by decide)
  · have hlen := congrArg List.length (h ⟨11, _⟩ rfl)
    rw [hone] at hlen
    exact absurd hlen (by decide)

end Etherchimp
