import Etherchimp.Proof.Windows

/-!
# Edge ids as a code for pairs

The id of an edge is written in two packages, by the graph for a packet it ingests and
by the store for a packet it records, and it is cut open again where stored windows are
read. An endpoint may end in the first characters of the separator; as long as it does
not contain all of it, the first occurrence in the id is the one that joins the two.
-/

namespace Etherchimp

/-- A node id that can be an endpoint: it is not empty and does not contain the separator. -/
structure EndpointID (id : String) : Prop where
  nonempty : id ≠ ""
  sepFree : SepFree id

instance (id : String) : Decidable (EndpointID id) :=
  decidable_of_iff (id ≠ "" ∧ SepFree id) ⟨fun h => ⟨h.1, h.2⟩, fun h => ⟨h.1, h.2⟩⟩

variable {a b c d : String}

/-- A packet from the one node to the other. -/
def packetFrom (src dst : String) : PacketEvent := { captureID := 0, src := src, dst := dst, length := 0 }

theorem splitEdgeID_canonKey (ha : EndpointID a) (hb : EndpointID b) :
    splitEdgeID (canonKey a b) = some (getCanonicalEdgeID a b).2 := by
  have hnamed : (packetFrom a b).named = true := decide_eq_true ⟨ha.nonempty, hb.nonempty⟩
  exact @splitEdgeID_named (packetFrom a b) ⟨ha.sepFree, hb.sepFree⟩ hnamed

/-- What the store writes for a packet, in the graph's terms. -/
theorem Aggregator.apply_edge (reg : Registry) (agg : Aggregator) (ev : PacketEvent) :
    (agg.apply reg ev).edges.lookup ⟨ev.captureID, canonKey ev.src ev.dst⟩
      = some (((agg.edges.lookup ⟨ev.captureID, canonKey ev.src ev.dst⟩).getD
          { fromID := (getCanonicalEdgeID ev.src ev.dst).2.1
            toID := (getCanonicalEdgeID ev.src ev.dst).2.2
            proto := ev.proto
            first := ev.unixMilli }).count reg ev) := by
  unfold Aggregator.apply Aggregator.countBucket Aggregator.countEdge
  exact AList.lookup_insert _

/--
**Edge ids are a faithful code for unordered pairs**, and the store's are the graph's.
-/
theorem edgeID_faithful (ha : EndpointID a) (hb : EndpointID b) (hc : EndpointID c)
    (hd : EndpointID d) :
    getCanonicalEdgeID a b = getCanonicalEdgeID b a
      ∧ splitEdgeID (canonKey a b) = some (getCanonicalEdgeID a b).2
      ∧ (canonKey a b = canonKey c d → (a = c ∧ b = d) ∨ (a = d ∧ b = c))
      ∧ ∀ (reg : Registry) (agg : Aggregator) (ev : PacketEvent), ev.src = a → ev.dst = b →
          (agg.apply reg ev).edges.lookup ⟨ev.captureID, canonKey a b⟩
            = some (((agg.edges.lookup ⟨ev.captureID, canonKey a b⟩).getD
                { fromID := (getCanonicalEdgeID a b).2.1
                  toID := (getCanonicalEdgeID a b).2.2
                  proto := ev.proto
                  first := ev.unixMilli }).count reg ev)
          ∧ (ev.isForward = true ↔ a = (getCanonicalEdgeID a b).2.1) := by
  refine ⟨getCanonicalEdgeID_comm a b, splitEdgeID_canonKey ha hb, fun h => ?_, ?_⟩
  · exact canonKey_inj ha.sepFree hb.sepFree hc.sepFree hd.sepFree h
  · rintro reg agg ev rfl rfl
    refine ⟨agg.apply_edge reg ev, ?_⟩
    unfold PacketEvent.isForward
    rw [decide_eq_true_eq, ev.edge_eq]

/-- Ids that end in the beginning of the separator. -/
theorem edgeID_faithful_overlapping : splitEdgeID (canonKey "nas<-" "10.0.0.1<")
    = some (getCanonicalEdgeID "nas<-" "10.0.0.1<").2 :=
  (edgeID_faithful (a := "nas<-") (b := "10.0.0.1<") (c := "nas<-") (d := "10.0.0.1<")
    (by decide) (by decide) (by decide) (by decide)).2.1

end Etherchimp
