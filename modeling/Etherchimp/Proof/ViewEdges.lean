import Etherchimp.Proof.ViewHosts

/-!
# The edges of a view

A raw edge belongs to the pair of nodes its ends are remapped to. `Candidates` says
the edges a build may show are one a pair, each with the totals of the raw edges that
belong to it. The build with nothing folded and the one that merges edges are separate
code: each has its own proof of `Candidates`, and the rest is shared.
-/

namespace Etherchimp

open Grouping

/-- The edge with its directions as seen from `f`. -/
def Edge.seenFrom (remap : String → String) (f : String) (e : Edge) : Edge :=
  if remap e.fromID = f then e
  else
    { e with
      forwardPackets := e.reversePackets
      reversePackets := e.forwardPackets
      forwardBytes := e.reverseBytes
      reverseBytes := e.forwardBytes }

/-- The edge joins the two nodes of the view, either way round. -/
def Edge.Links (remap : String → String) (f t : String) (e : Edge) : Prop :=
  (remap e.fromID = f ∧ remap e.toID = t) ∨ (remap e.fromID = t ∧ remap e.toID = f)

instance (remap : String → String) (f t : String) (e : Edge) : Decidable (e.Links remap f t) :=
  inferInstanceAs (Decidable (_ ∨ _))

/-- The visible raw edges between two nodes of the view. -/
def carried (cfg : ViewConfig) (raw : RawSnapshot) (remap : String → String) (f t : String) :
    List Edge :=
  raw.edges.filter fun e => !cfg.hides e && decide (e.Links remap f t)

/-- The counters of an edge. -/
structure EdgeCounters where
  packets : Int
  bytes : Int
  forwardPackets : Int
  reversePackets : Int
  forwardBytes : Int
  reverseBytes : Int

def Edge.counters (e : Edge) : EdgeCounters :=
  ⟨e.packetCount, e.byteCount, e.forwardPackets, e.reversePackets, e.forwardBytes, e.reverseBytes⟩

def ViewEdge.counters {F : Type} (e : ViewEdge F) : EdgeCounters :=
  ⟨e.packetCount, e.byteCount, e.forwardPackets, e.reversePackets, e.forwardBytes, e.reverseBytes⟩

/-- The counters are the totals of the others. -/
structure Sums (parts : List EdgeCounters) (c : EdgeCounters) : Prop where
  packets : c.packets = (parts.map EdgeCounters.packets).sum
  bytes : c.bytes = (parts.map EdgeCounters.bytes).sum
  forwardPackets : c.forwardPackets = (parts.map EdgeCounters.forwardPackets).sum
  reversePackets : c.reversePackets = (parts.map EdgeCounters.reversePackets).sum
  forwardBytes : c.forwardBytes = (parts.map EdgeCounters.forwardBytes).sum
  reverseBytes : c.reverseBytes = (parts.map EdgeCounters.reverseBytes).sum

def EdgeCounters.add (c d : EdgeCounters) : EdgeCounters where
  packets := c.packets + d.packets
  bytes := c.bytes + d.bytes
  forwardPackets := c.forwardPackets + d.forwardPackets
  reversePackets := c.reversePackets + d.reversePackets
  forwardBytes := c.forwardBytes + d.forwardBytes
  reverseBytes := c.reverseBytes + d.reverseBytes

theorem Sums.concat {parts : List EdgeCounters} {c d : EdgeCounters} (h : Sums parts c) :
    Sums (parts ++ [d]) (c.add d) := by
  have hsum : ∀ w : EdgeCounters → Int, ((parts ++ [d]).map w).sum = (parts.map w).sum + w d := by
    intro w
    rw [List.map_append, List.sum_append, List.map_singleton, List.sum_singleton]
  constructor <;> rw [hsum]
  · rw [← h.packets]; rfl
  · rw [← h.bytes]; rfl
  · rw [← h.forwardPackets]; rfl
  · rw [← h.reversePackets]; rfl
  · rw [← h.forwardBytes]; rfl
  · rw [← h.reverseBytes]; rfl

theorem sums_nil : Sums [] ⟨0, 0, 0, 0, 0, 0⟩ := ⟨rfl, rfl, rfl, rfl, rfl, rfl⟩

theorem sums_singleton (c : EdgeCounters) : Sums [c] c := by
  constructor <;> rw [List.map_singleton, List.sum_singleton]

/-- What they count, seen from the first node. -/
def carriedCounters (cfg : ViewConfig) (raw : RawSnapshot) (remap : String → String)
    (f t : String) : List EdgeCounters :=
  (carried cfg raw remap f t).map fun e => (e.seenFrom remap f).counters

/-- An edge in canonical form. -/
def Edge.Canonical (e : Edge) : Prop := getCanonicalEdgeID e.fromID e.toID = (e.id, e.fromID, e.toID)

instance (e : Edge) : Decidable e.Canonical := inferInstanceAs (Decidable (_ = _))

theorem Edge.Canonical.id_eq {e : Edge} (h : e.Canonical) : e.id = canonKey e.fromID e.toID := by
  unfold canonKey
  rw [h]

/-- Canonical edges of one pair have one id. -/
theorem canonical_id_of_links {e : Edge} (h : e.Canonical) {f t : String}
    (hl : e.Links id f t) : e.id = canonKey f t := by
  rw [h.id_eq]
  rcases hl with ⟨hf, ht⟩ | ⟨hf, ht⟩
  · rw [← hf, ← ht]
    rfl
  · rw [← hf, ← ht, canonKey_comm]
    rfl

theorem Edge.Canonical.not_lt {e : Edge} (h : e.Canonical) : ¬ e.toID < e.fromID := by
  intro hlt
  unfold Edge.Canonical getCanonicalEdgeID at h
  rw [if_neg (String.lt_asymm hlt), Prod.mk.injEq, Prod.mk.injEq] at h
  rw [h.2.1] at hlt
  exact String.lt_irrefl _ hlt

/-! ## The nodes taken -/

theorem isSome_idSet (nodes : List Node) (id : String) :
    ((idSet nodes).lookup id).isSome ↔ id ∈ nodes.map Node.ip := by
  unfold idSet
  induction nodes using List.reverseRecOn with
  | nil => simp
  | append_singleton nodes n ih =>
    rw [List.foldl_concat, isSome_insert, ih, List.map_append, List.mem_append, List.map_singleton,
      List.mem_singleton, or_comm]

/-- The cut takes nodes there were, no more than the cap. -/
theorem cutNodes_spec (cfg : ViewConfig) (s : Folding) (kept : List Node) :
    (∀ n ∈ cutNodes cfg s kept, n ∈ kept) ∧ (cutNodes cfg s kept).length ≤ cfg.nodeCap := by
  unfold cutNodes
  simp only []
  by_cases hlen : kept.length ≤ cfg.nodeCap
  · rw [if_pos hlen]
    exact ⟨fun n hn => hn, hlen⟩
  rw [if_neg hlen]
  split
  · exact ⟨fun n hn => List.mem_of_mem_take hn, List.length_take_le _ _⟩
  · -- both loops take a node of the list while there is room
    have htake : ∀ (t : Taken) (n : Node), n ∈ kept → t.1.length < cfg.nodeCap →
        (∀ n ∈ t.1, n ∈ kept) ∧ t.1.length ≤ cfg.nodeCap →
        (∀ n' ∈ (takeNode t n).1, n' ∈ kept) ∧ (takeNode t n).1.length ≤ cfg.nodeCap := by
      intro t n hn hroom ht
      refine ⟨fun n' hn' => ?_, ?_⟩
      · rcases List.mem_append.mp hn' with h | h
        · exact ht.1 n' h
        · exact List.mem_singleton.mp h ▸ hn
      · unfold takeNode
        rw [List.length_append, List.length_singleton]
        omega
    refine List.foldlRecOn (motive := fun t : Taken =>
      (∀ n ∈ t.1, n ∈ kept) ∧ t.1.length ≤ cfg.nodeCap) kept _ ?_ fun t ht n hn => ?_
    · refine List.foldlRecOn (motive := fun t : Taken =>
        (∀ n ∈ t.1, n ∈ kept) ∧ t.1.length ≤ cfg.nodeCap) kept _ ?_ fun t ht n hn => ?_
      · exact ⟨fun n hn => absurd hn List.not_mem_nil, Nat.zero_le _⟩
      · split
        · rename_i h
          exact htake t n hn h.2 ht
        · exact ht
    · split
      · exact ht
      · rename_i hroom
        split
        · exact ht
        · exact htake t n hn (by omega) ht

section Build

variable {F : Type} [FloatMath F] (go : Runtime) (raw : RawSnapshot) (cfg : ViewConfig)
  (input : ViewInput F)

theorem mem_shownNodes {n : Node} (hn : n ∈ input.shownNodes go raw cfg) :
    n ∈ (input.folding go raw cfg).kept := by
  have hn := (go.mem_sortSlice).mp ((cutNodes_spec cfg _ _).1 n hn)
  unfold isolate at hn
  split at hn
  · exact (List.mem_filter.mp hn).1
  · exact hn

/-- No shown id contains the separator of edge ids. -/
theorem shown_sepFree (hc : ClearNames cfg (isGroupNode input.overrides) raw)
    (hsep : ∀ n ∈ raw.nodes, SepFree n.ip) {id : String} (hid : id ∈ (input.shownNodes go raw cfg).map Node.ip) : SepFree id := by
  obtain ⟨n, hn, rfl⟩ := List.mem_map.mp hid
  rcases plain_foldedView hc (mem_shownNodes go raw cfg input hn) with hhost | hplain
  · exact hsep n (List.mem_filter.mp hhost).1
  · exact hplain.sepFree

end Build

/-! ## Merging the edges of a pair -/

section Merging

variable {s : Folding} {m : Edge} {d : Nat}

/-- What one raw edge adds. -/
structure Absorbs (s : Folding) (m e m' : Edge) : Prop where
  id : m'.id = m.id
  fromID : m'.fromID = m.fromID
  toID : m'.toID = m.toID
  counters : m'.counters = m.counters.add (e.seenFrom s.remapID m.fromID).counters

theorem mergeEdge_absorbs (s : Folding) (m : Edge) (d : Nat) (e : Edge) :
    Absorbs s m e (mergeEdge s (some (m, d)) e).1 := by
  unfold mergeEdge
  simp only [Option.getD_some]
  by_cases hf : s.remapID e.fromID = m.fromID
  · have hseen : e.seenFrom s.remapID m.fromID = e := if_pos hf
    rw [if_pos hf]
    split <;> exact ⟨rfl, rfl, rfl, hseen.symm ▸ rfl⟩
  · have hseen : e.seenFrom s.remapID m.fromID = _ := if_neg hf
    rw [if_neg hf]
    split <;> exact ⟨rfl, rfl, rfl, hseen.symm ▸ rfl⟩

/-- Raw edges of one pair merge into one edge with their totals. -/
theorem merge_sums {k f t : String} : ∀ {es : List Edge}, es ≠ [] →
    (∀ e ∈ es, getCanonicalEdgeID (s.remapID e.fromID) (s.remapID e.toID) = (k, f, t)) →
    ∃ m d, es.foldl (fun o e => some (mergeEdge s o e)) none = some (m, d)
      ∧ m.id = k ∧ m.fromID = f ∧ m.toID = t
      ∧ Sums (es.map fun e => (e.seenFrom s.remapID f).counters) m.counters := by
  intro es
  induction es using List.reverseRecOn with
  | nil => exact fun hne => absurd rfl hne
  | append_singleton es e ih =>
    intro _ hends
    rw [List.foldl_concat, List.map_append, List.map_singleton]
    by_cases hes : es = []
    · -- the first one opens the edge
      subst hes
      have hc := hends e (List.mem_singleton.mpr rfl)
      let fresh : Edge :=
        { id := (getCanonicalEdgeID (s.remapID e.fromID) (s.remapID e.toID)).1
          fromID := (getCanonicalEdgeID (s.remapID e.fromID) (s.remapID e.toID)).2.1
          toID := (getCanonicalEdgeID (s.remapID e.fromID) (s.remapID e.toID)).2.2
          protocol := e.protocol
          packetCount := 0
          byteCount := 0
          lastSeen := 0 }
      have ha : Absorbs s fresh e (mergeEdge s none e).1 := mergeEdge_absorbs s fresh 0 e
      have hf : fresh.fromID = f := congrArg (fun p => p.2.1) hc
      refine ⟨(mergeEdge s none e).1, (mergeEdge s none e).2, rfl, ha.id.trans ?_,
        ha.fromID.trans hf, ha.toID.trans ?_, ?_⟩
      · exact congrArg (fun p => p.1) hc
      · exact congrArg (fun p => p.2.2) hc
      · rw [ha.counters, hf]
        exact sums_nil.concat
    · obtain ⟨m, d, hm, hid, hf, ht, hsums⟩ := ih hes fun e he => hends e (List.mem_append_left _ he)
      have ha := mergeEdge_absorbs s m d e
      rw [hm]
      refine ⟨(mergeEdge s (some (m, d)) e).1, (mergeEdge s (some (m, d)) e).2, rfl,
        ha.id.trans hid, ha.fromID.trans hf, ha.toID.trans ht, ?_⟩
      rw [ha.counters, hf]
      exact hsums.concat

end Merging

/-! ## The candidates -/

/-- The edges a build may show. -/
structure Candidates (cfg : ViewConfig) (raw : RawSnapshot) (remap : String → String)
    (ids : List String) (cand : List Edge) : Prop where
  ends : ∀ c ∈ cand, c.fromID ∈ ids ∧ c.toID ∈ ids
  canonical : ∀ c ∈ cand, c.Canonical
  nodup : (cand.map Edge.id).Nodup
  carries : ∀ c ∈ cand, carried cfg raw remap c.fromID c.toID ≠ []
  sums : ∀ c ∈ cand, Sums (carriedCounters cfg raw remap c.fromID c.toID) c.counters
  complete : ∀ f ∈ ids, ∀ t ∈ ids, f < t → carried cfg raw remap f t ≠ [] →
    ∃ c ∈ cand, c.fromID = f ∧ c.toID = t

section Candidates

variable (go : Runtime) (raw : RawSnapshot) (cfg : ViewConfig) {s : Folding} {nodes : List Node}

theorem mem_carried {remap : String → String} {f t : String} {e : Edge} :
    e ∈ carried cfg raw remap f t ↔ e ∈ raw.edges ∧ cfg.hides e = false ∧ e.Links remap f t := by
  unfold carried
  rw [List.mem_filter, Bool.and_eq_true, Bool.not_eq_true', decide_eq_true_eq]

theorem joinsKept_iff {e : Edge} : joinsKept cfg s (idSet nodes) e = true
    ↔ cfg.hides e = false ∧ s.remapID e.fromID ∈ nodes.map Node.ip
      ∧ s.remapID e.toID ∈ nodes.map Node.ip := by
  unfold joinsKept
  rw [Bool.and_eq_true, Bool.and_eq_true, Bool.not_eq_true', isSome_idSet, isSome_idSet, and_assoc]

/-- The canonical edge of a pair is the only one. -/
theorem carried_plain (hcan : ∀ e ∈ raw.edges, e.Canonical) (hids : (raw.edges.map Edge.id).Nodup)
    {c : Edge} (hc : c ∈ raw.edges) (hvis : cfg.hides c = false) :
    carried cfg raw id c.fromID c.toID = [c] := by
  unfold carried
  have hcongr : ∀ e ∈ raw.edges,
      (!cfg.hides e && decide (e.Links id c.fromID c.toID)) = decide (e = c) := by
    intro e he
    rw [Bool.eq_iff_iff, Bool.and_eq_true, Bool.not_eq_true', decide_eq_true_eq, decide_eq_true_eq]
    refine ⟨fun h => ?_, fun h => ?_⟩
    · have hid : e.id = c.id := (canonical_id_of_links (hcan e he) h.2).trans (hcan c hc).id_eq.symm
      exact List.inj_on_of_nodup_map hids he hc hid
    · rw [h]
      exact ⟨hvis, .inl ⟨rfl, rfl⟩⟩
  rw [List.filter_congr hcongr, List.filter_eq, List.count_eq_one_of_mem (List.Nodup.of_map _ hids) hc]
  rfl

/-- Nothing folded: the visible raw edges between shown nodes. -/
theorem candidates_plain (hcan : ∀ e ∈ raw.edges, e.Canonical)
    (hids : (raw.edges.map Edge.id).Nodup) (hs : s.remapped = false) :
    Candidates cfg raw s.remapID (nodes.map Node.ip) (candEdges go cfg s (idSet nodes) raw) := by
  have hremap : s.remapID = id := by
    funext i
    unfold Folding.remapID
    rw [hs, if_neg Bool.false_ne_true]
    rfl
  have hcand : candEdges go cfg s (idSet nodes) raw
      = raw.edges.filter (joinsKept cfg s (idSet nodes)) := by
    unfold candEdges
    rw [hs]
    rfl
  have hmem : ∀ c ∈ candEdges go cfg s (idSet nodes) raw, c ∈ raw.edges ∧ cfg.hides c = false
      ∧ c.fromID ∈ nodes.map Node.ip ∧ c.toID ∈ nodes.map Node.ip := by
    intro c hc
    rw [hcand, List.mem_filter, joinsKept_iff, hremap] at hc
    exact hc
  have hone : ∀ c ∈ candEdges go cfg s (idSet nodes) raw,
      carried cfg raw s.remapID c.fromID c.toID = [c] := by
    intro c hc
    rw [hremap]
    exact carried_plain raw cfg hcan hids (hmem c hc).1 (hmem c hc).2.1
  refine
    { ends := fun c hc => (hmem c hc).2.2, canonical := fun c hc => hcan c (hmem c hc).1
      nodup := ?_, carries := fun c hc => ?_, sums := fun c hc => ?_
      complete := fun f hf t ht hft hne => ?_ }
  · rw [hcand]
    exact hids.sublist (List.filter_sublist.map Edge.id)
  · rw [hone c hc]
    exact List.cons_ne_nil c []
  · have hseen : c.seenFrom s.remapID c.fromID = c := by
      unfold Edge.seenFrom
      rw [hremap]
      exact if_pos rfl
    unfold carriedCounters
    rw [hone c hc, List.map_singleton, hseen]
    exact sums_singleton c.counters
  · obtain ⟨e, he⟩ := List.exists_mem_of_ne_nil _ hne
    obtain ⟨hraw, hvis, hlinks⟩ := (mem_carried raw cfg).mp he
    have hcan := hcan e hraw
    rw [hremap] at hlinks
    rcases hlinks with ⟨rfl, rfl⟩ | ⟨rfl, rfl⟩
    · refine ⟨e, ?_, rfl, rfl⟩
      rw [hcand, List.mem_filter, joinsKept_iff, hremap]
      exact ⟨hraw, hvis, hf, ht⟩
    · exact absurd hft hcan.not_lt

/-- The raw edges that merge into the edge of a pair are those between its ends. -/
theorem contributors (hsep : ∀ i ∈ nodes.map Node.ip, SepFree i) {f t : String}
    (hf : f ∈ nodes.map Node.ip) (ht : t ∈ nodes.map Node.ip) (hne : f ≠ t) :
    (((raw.edges.filter (joinsKept cfg s (idSet nodes))).filter
        fun e => s.remapID e.fromID ≠ s.remapID e.toID).filter
          fun e => canonKey (s.remapID e.fromID) (s.remapID e.toID) = canonKey f t)
      = carried cfg raw s.remapID f t := by
  unfold carried
  rw [List.filter_filter, List.filter_filter]
  refine List.filter_congr fun e _ => ?_
  rw [Bool.eq_iff_iff, Bool.and_eq_true, Bool.and_eq_true, Bool.and_eq_true, Bool.not_eq_true',
    decide_eq_true_eq, decide_eq_true_eq, decide_eq_true_eq, joinsKept_iff, and_assoc]
  constructor
  · rintro ⟨hkey, hends, hvis, hfrom, hto⟩
    exact ⟨hvis, canonKey_inj (hsep _ hfrom) (hsep _ hto) (hsep _ hf) (hsep _ ht) hkey⟩
  · rintro ⟨hvis, ⟨rfl, rfl⟩ | ⟨rfl, rfl⟩⟩
    · exact ⟨rfl, hne, hvis, hf, ht⟩
    · exact ⟨canonKey_comm _ _, hne.symm, hvis, ht, hf⟩

/-- The visible raw edges that join two different shown nodes. -/
def crossing (cfg : ViewConfig) (raw : RawSnapshot) (s : Folding) (nodes : List Node) : List Edge :=
  (raw.edges.filter (joinsKept cfg s (idSet nodes))).filter
    fun e => s.remapID e.fromID ≠ s.remapID e.toID

def pairKey (s : Folding) (e : Edge) : String := canonKey (s.remapID e.fromID) (s.remapID e.toID)

/-- What is stored under a key while edges merge: what the edges of its pair merge into. -/
structure MergedUnder (cfg : ViewConfig) (raw : RawSnapshot) (s : Folding) (nodes : List Node)
    (k : String) (x : Edge × Nat) : Prop where
  id : x.1.id = k
  canonical : x.1.Canonical
  fromID : x.1.fromID ∈ nodes.map Node.ip
  toID : x.1.toID ∈ nodes.map Node.ip
  ne : x.1.fromID ≠ x.1.toID
  carries : carried cfg raw s.remapID x.1.fromID x.1.toID ≠ []
  merged : (carried cfg raw s.remapID x.1.fromID x.1.toID).foldl
    (fun o e => some (mergeEdge s o e)) none = some x
  sums : Sums (carriedCounters cfg raw s.remapID x.1.fromID x.1.toID) x.1.counters

theorem mergedUnder (hsep : ∀ i ∈ nodes.map Node.ip, SepFree i) {k : String} {x : Edge × Nat}
    (hx : (accumulate (pairKey s) (mergeEdge s) (crossing cfg raw s nodes)).lookup k = some x) :
    MergedUnder cfg raw s nodes k x := by
  rw [lookup_accumulate] at hx
  have hne : (crossing cfg raw s nodes).filter (fun e => pairKey s e = k) ≠ [] := by
    intro hnil
    rw [hnil] at hx
    exact absurd hx nofun
  -- any one of the edges gives the pair
  obtain ⟨e₀, he₀⟩ := List.exists_mem_of_ne_nil _ hne
  obtain ⟨hb₀, hk₀⟩ := List.mem_filter.mp he₀
  obtain ⟨hj₀, hne₀⟩ := List.mem_filter.mp hb₀
  obtain ⟨-, hf₀, ht₀⟩ := (joinsKept_iff cfg).mp (List.mem_filter.mp hj₀).2
  have hne₀ := of_decide_eq_true hne₀
  have hk₀ : pairKey s e₀ = k := of_decide_eq_true hk₀
  obtain ⟨f, t, hc⟩ : ∃ f t,
      getCanonicalEdgeID (s.remapID e₀.fromID) (s.remapID e₀.toID) = (k, f, t) :=
    ⟨_, _, Prod.ext hk₀ rfl⟩
  have hcan := getCanonicalEdgeID_idem hc
  have hkey : canonKey f t = k := congrArg (fun p => p.1) hcan
  have hft : f ∈ nodes.map Node.ip ∧ t ∈ nodes.map Node.ip ∧ f ≠ t := by
    rcases getCanonicalEdgeID_cases (s.remapID e₀.fromID) (s.remapID e₀.toID) with h | h <;>
      rw [hc, Prod.mk.injEq, Prod.mk.injEq] at h <;> obtain ⟨-, rfl, rfl⟩ := h
    · exact ⟨hf₀, ht₀, hne₀⟩
    · exact ⟨ht₀, hf₀, hne₀.symm⟩
  obtain ⟨hf, ht, hneq⟩ := hft
  have hcontr : (crossing cfg raw s nodes).filter (fun e => pairKey s e = k)
      = carried cfg raw s.remapID f t := by
    rw [← hkey]
    exact contributors raw cfg hsep hf ht hneq
  rw [hcontr] at hx hne
  have hends : ∀ e ∈ carried cfg raw s.remapID f t,
      getCanonicalEdgeID (s.remapID e.fromID) (s.remapID e.toID) = (k, f, t) := by
    intro e he
    rcases ((mem_carried raw cfg).mp he).2.2 with ⟨h₁, h₂⟩ | ⟨h₁, h₂⟩
    · rw [h₁, h₂, hcan]
    · rw [h₁, h₂, getCanonicalEdgeID_comm, hcan]
  obtain ⟨m, d, hm, hid, hmf, hmt, hsums⟩ := merge_sums hne hends
  rw [← hmf, ← hmt] at hm hne hsums hcan hneq
  rw [← hmf] at hf
  rw [← hmt] at ht
  rw [← hmf, ← hmt, hm, Option.some.injEq] at hx
  subst hx
  exact ⟨hid, hcan.trans (hid ▸ rfl), hf, ht, hneq, hne, hm, hsums⟩

theorem candEdges_merged (hs : s.remapped = true) : candEdges go cfg s (idSet nodes) raw
    = (go.rangeOf (accumulate (pairKey s) (mergeEdge s) (crossing cfg raw s nodes))).map
        fun m => m.2.1 := by
  unfold candEdges
  rw [hs]
  rfl

/-- A merged candidate is what the raw edges of its pair merge into. -/
theorem mem_candEdges_merged (hsep : ∀ i ∈ nodes.map Node.ip, SepFree i) (hs : s.remapped = true)
    {c : Edge} (hc : c ∈ candEdges go cfg s (idSet nodes) raw) :
    ∃ d, MergedUnder cfg raw s nodes c.id (c, d) := by
  rw [candEdges_merged go raw cfg hs] at hc
  obtain ⟨⟨k, x⟩, hkx, rfl⟩ := List.mem_map.mp hc
  have hx := mergedUnder raw cfg hsep ((go.mem_rangeOf).mp hkx)
  exact ⟨x.2, hx.id ▸ hx⟩

/-- Something folded: the merged edges between different shown nodes. -/
theorem candidates_merged (hsep : ∀ i ∈ nodes.map Node.ip, SepFree i) (hs : s.remapped = true) :
    Candidates cfg raw s.remapID (nodes.map Node.ip) (candEdges go cfg s (idSet nodes) raw) := by
  have hmem := fun c hc => mem_candEdges_merged go raw cfg hsep hs (c := c) hc
  refine
    { ends := fun c hc => ?_, canonical := fun c hc => ?_, nodup := ?_
      carries := fun c hc => ?_, sums := fun c hc => ?_, complete := fun f hf t ht hft hne => ?_ }
  · obtain ⟨d, h⟩ := hmem c hc
    exact ⟨h.fromID, h.toID⟩
  · obtain ⟨d, h⟩ := hmem c hc
    exact h.canonical
  · -- an edge is named by its key
    have hkeys : (candEdges go cfg s (idSet nodes) raw).map Edge.id
        = (go.rangeOf (accumulate (pairKey s) (mergeEdge s) (crossing cfg raw s nodes))).map
            Sigma.fst := by
      rw [candEdges_merged go raw cfg hs, List.map_map]
      refine List.map_congr_left fun p hp => ?_
      exact (mergedUnder raw cfg hsep ((go.mem_rangeOf).mp hp)).id
    rw [hkeys, ((go.rangeOf_perm _).map Sigma.fst).nodup_iff]
    exact (accumulate (pairKey s) (mergeEdge s) (crossing cfg raw s nodes)).nodupKeys
  · obtain ⟨d, h⟩ := hmem c hc
    exact h.carries
  · obtain ⟨d, h⟩ := hmem c hc
    exact h.sums
  · have hneq : f ≠ t := fun h => String.lt_irrefl t (h ▸ hft)
    rw [← contributors raw cfg (s := s) hsep hf ht hneq] at hne
    obtain ⟨x, hx⟩ : ∃ x, (accumulate (pairKey s) (mergeEdge s) (crossing cfg raw s nodes)).lookup
        (canonKey f t) = some x := by
      rw [lookup_accumulate]
      rcases List.eq_nil_or_concat' ((crossing cfg raw s nodes).filter
        fun e => pairKey s e = canonKey f t) with h | ⟨es, e, h⟩
      · exact absurd h hne
      · rw [h, List.foldl_concat]
        exact ⟨_, rfl⟩
    have h := mergedUnder raw cfg hsep hx
    have hc : x.1 ∈ candEdges go cfg s (idSet nodes) raw := by
      rw [candEdges_merged go raw cfg hs]
      exact List.mem_map_of_mem ((go.mem_rangeOf).mpr hx)
    -- the key fixes the pair, and the canonical form its order
    have hid := h.canonical.id_eq.symm.trans h.id
    rcases canonKey_inj (hsep _ h.fromID) (hsep _ h.toID) (hsep _ hf) (hsep _ ht) hid with
      ⟨h₁, h₂⟩ | ⟨h₁, h₂⟩
    · exact ⟨x.1, hc, h₁, h₂⟩
    · have hlt := h.canonical.not_lt
      rw [h₁, h₂] at hlt
      exact absurd hft hlt

end Candidates

/-! ## The view -/

section View

variable {F : Type} [FloatMath F]

/-- Where a raw id is in the view. -/
def ViewSnapshot.remap (view : ViewSnapshot F) (i : String) : String :=
  (view.hostToSuper.lookup i).getD i

/-- The two ends of an edge of the view, either way round. -/
def ViewEdge.Joins (e : ViewEdge F) (f t : String) : Prop :=
  (e.fromID = f ∧ e.toID = t) ∨ (e.fromID = t ∧ e.toID = f)

/-- The edges of a view are the visible traffic between its nodes. -/
structure ShowsTraffic (raw : RawSnapshot) (cfg : ViewConfig) (view : ViewSnapshot F) (cands : Nat) :
    Prop where
  ends : ∀ e ∈ view.edges,
    e.fromID ∈ view.nodes.map ViewNode.id ∧ e.toID ∈ view.nodes.map ViewNode.id
  unique : view.edges.Pairwise fun a b => ¬ b.Joins a.fromID a.toID
  nodes_le : view.nodes.length ≤ cfg.nodeCap
  edges_le : view.edges.length ≤ cfg.edgeCap
  /-- With room for all candidates, an edge is there exactly for a pair with traffic. -/
  exists_iff : cands ≤ cfg.edgeCap →
    ∀ f ∈ view.nodes.map ViewNode.id, ∀ t ∈ view.nodes.map ViewNode.id, f < t →
      ((∃ e ∈ view.edges, e.Joins f t) ↔ carried cfg raw view.remap f t ≠ [])
  /-- Its counters are the totals of that traffic, forward as seen from the smaller end. -/
  sums : ∀ e ∈ view.edges, ∀ f t, f < t → e.Joins f t →
    Sums (carriedCounters cfg raw view.remap f t) e.counters

variable (go : Runtime) (raw : RawSnapshot) (cfg : ViewConfig) (input : ViewInput F)

/-- The candidates of a build, folded or not. -/
theorem candidates_shown (hnodes : (raw.nodes.map Node.ip).Nodup)
    (hslash : ∀ n ∈ raw.nodes, '/' ∉ n.ip.toList) (hsep : ∀ n ∈ raw.nodes, SepFree n.ip)
    (hcan : ∀ e ∈ raw.edges, e.Canonical) (hedges : (raw.edges.map Edge.id).Nodup) :
    Candidates cfg raw (input.folding go raw cfg).remapID
      ((input.shownNodes go raw cfg).map Node.ip) (input.shownCandEdges go raw cfg) := by
  cases hs : (input.folding go raw cfg).remapped with
  | false => exact candidates_plain go raw cfg hcan hedges hs
  | true =>
    have hc := clearNames (isGroupNode input.overrides) raw cfg hnodes hslash
    exact candidates_merged go raw cfg (fun i hi => shown_sepFree go raw cfg input hc hsep hi) hs

variable [RuneCase]

theorem buildView_remap :
    (buildView go raw cfg input).1.remap = (input.folding go raw cfg).remapID := by
  funext i
  unfold ViewSnapshot.remap Folding.remapID
  rw [buildView_hostToSuper]
  split <;> rfl

/--
**View edges are the visible traffic between shown nodes**, folded or not: one edge a
pair within the caps, there exactly when some visible raw edge belongs to the pair, with
the totals of those that do.
-/
theorem showsTraffic (hnodes : (raw.nodes.map Node.ip).Nodup)
    (hslash : ∀ n ∈ raw.nodes, '/' ∉ n.ip.toList) (hsep : ∀ n ∈ raw.nodes, SepFree n.ip)
    (hcan : ∀ e ∈ raw.edges, e.Canonical) (hedges : (raw.edges.map Edge.id).Nodup) :
    ShowsTraffic raw cfg (buildView go raw cfg input).1
      (input.shownCandEdges go raw cfg).length := by
  have h := candidates_shown go raw cfg input hnodes hslash hsep hcan hedges
  have hids : (buildView go raw cfg input).1.nodes.map ViewNode.id
      = (input.shownNodes go raw cfg).map Node.ip := buildView_ids go raw cfg input
  have hmem : ∀ v ∈ (buildView go raw cfg input).1.edges,
      ∃ c ∈ input.shownCandEdges go raw cfg, viewEdge c = v := by
    intro v hv
    obtain ⟨c, hc, hcv⟩ := List.mem_map.mp hv
    exact ⟨c, (go.mem_sortSlice).mp (List.mem_of_mem_take hc), hcv⟩
  -- the ends of a canonical edge are in order
  have hjoins : ∀ c ∈ input.shownCandEdges go raw cfg, ∀ f t, f < t →
      (viewEdge c : ViewEdge F).Joins f t → c.fromID = f ∧ c.toID = t := by
    intro c hc f t hft hj
    refine hj.resolve_right fun hj => ?_
    have hlt := (h.canonical c hc).not_lt
    rw [show c.fromID = t from hj.1, show c.toID = f from hj.2] at hlt
    exact hlt hft
  refine
    { ends := fun v hv => ?_, unique := ?_, nodes_le := ?_, edges_le := ?_
      exists_iff := fun hroom f hf t ht hft => ⟨?_, fun hne => ?_⟩
      sums := fun v hv f t hft hj => ?_ }
  · obtain ⟨c, hc, rfl⟩ := hmem v hv
    rw [hids]
    exact h.ends c hc
  · have hnd : ((input.shownEdges go raw cfg).map Edge.id).Nodup := by
      have hperm := (go.sortSlice_perm busierEdge (input.shownCandEdges go raw cfg)).map Edge.id
      exact (hperm.nodup_iff.mpr h.nodup).sublist ((List.take_sublist _ _).map Edge.id)
    refine List.pairwise_map.mpr ((List.pairwise_map.mp hnd).imp_of_mem ?_)
    intro a b ha hb hne hj
    have ha := (go.mem_sortSlice).mp (List.mem_of_mem_take ha)
    have hb := (go.mem_sortSlice).mp (List.mem_of_mem_take hb)
    refine hne ?_
    rw [(h.canonical a ha).id_eq, (h.canonical b hb).id_eq]
    rcases hj with ⟨h₁, h₂⟩ | ⟨h₁, h₂⟩
    · rw [show a.fromID = b.fromID from h₁.symm, show a.toID = b.toID from h₂.symm]
    · rw [show a.fromID = b.toID from h₂.symm, show a.toID = b.fromID from h₁.symm, canonKey_comm]
  · have hl := congrArg List.length hids
    rw [List.length_map, List.length_map] at hl
    rw [hl]
    exact (cutNodes_spec cfg _ _).2
  · have hl : (buildView go raw cfg input).1.edges.length = (input.shownEdges go raw cfg).length :=
      List.length_map ..
    rw [hl]
    exact List.length_take_le _ _
  · rintro ⟨v, hv, hj⟩
    obtain ⟨c, hc, rfl⟩ := hmem v hv
    obtain ⟨rfl, rfl⟩ := hjoins c hc f t hft hj
    rw [buildView_remap]
    exact h.carries c hc
  · rw [hids] at hf ht
    rw [buildView_remap] at hne
    obtain ⟨c, hc, hcf, hct⟩ := h.complete f hf t ht hft hne
    refine ⟨viewEdge c, List.mem_map_of_mem ?_, .inl ⟨hcf, hct⟩⟩
    unfold ViewInput.shownEdges selectEdges
    rw [List.take_of_length_le (by rw [Runtime.length_sortSlice]; exact hroom)]
    exact (go.mem_sortSlice).mpr hc
  · obtain ⟨c, hc, rfl⟩ := hmem v hv
    obtain ⟨rfl, rfl⟩ := hjoins c hc f t hft hj
    rw [buildView_remap]
    exact h.sums c hc

end View

/-- An edge the capture may hold between two nodes. -/
def rawEdge (a b : String) (packets : Nat) : Edge where
  id := (getCanonicalEdgeID a b).1
  fromID := (getCanonicalEdgeID a b).2.1
  toID := (getCanonicalEdgeID a b).2.2
  protocol := { name := "TCP", color := "#3498db", layer := "L4 · Transport", layerNum := 4 }
  packetCount := packets
  byteCount := 60 * packets
  lastSeen := 0
  forwardPackets := packets

/-- The crowded subnet, with traffic inside it and to a host on each side of its name. -/
def crowdedTraffic : RawSnapshot where
  nodes := crowdedSubnet.nodes ++ ["1.1.1.1", "8.8.8.8"].map fun ip =>
    { ip := ip, hostname := "", ips := [ip], packetCount := 7, byteCount := 420, lastSeen := 0,
      isGroup := false }
  edges := [rawEdge "10.0.0.1" "10.0.0.2" 3, rawEdge "10.0.0.1" "8.8.8.8" 5,
    rawEdge "10.0.0.2" "8.8.8.8" 2, rawEdge "10.0.0.3" "1.1.1.1" 4]

/-- Zoomed out, the edges of the subnet's hosts merge. -/
theorem showsTraffic_far :
    ShowsTraffic crowdedTraffic { zoomBand := "far" }
      (buildView Runtime.stable crowdedTraffic { zoomBand := "far" } ({} : ViewInput Float)).1
      (({} : ViewInput Float).shownCandEdges Runtime.stable crowdedTraffic
        { zoomBand := "far" }).length :=
  showsTraffic Runtime.stable crowdedTraffic { zoomBand := "far" } {} (by decide) (by decide)
    (by decide) (by decide) (by decide)

end Etherchimp
