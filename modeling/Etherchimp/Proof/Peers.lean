import Etherchimp.Proof.Linked
import Etherchimp.Proof.Totals

/-!
# Peer sets

`addPeersLocked` is the only place a peer set is written: each packet makes the
two nodes of its edge each other's peers. A merge moves edges and forgets the
sets: the neighbours of the node that is folded away keep its old id, and what
the node itself had collected is dropped when the new id has a node already.

`peersFollow_merge_iff` is the whole story of one merge: the sets stay exact if
and only if the node that is folded away had no neighbour.
-/

namespace Etherchimp

open Manager

/-- Some edge is between the two nodes. -/
def Joined (m : Manager) (a b : String) : Prop :=
  ∃ key e, m.edges.lookup key = some e ∧ e.Joins a b

/-- The peers of a node are the other nodes it has an edge with. -/
def PeersFollow (m : Manager) : Prop :=
  ∀ k n, m.nodes.lookup k = some n → ∀ p, p ∈ n.peers ↔ p ≠ k ∧ Joined m k p

/-- Every edge at the id is a self-loop. -/
def Isolated (m : Manager) (id : String) : Prop :=
  ∀ x ∈ m.edges.entries, Incident id x.2 → x.2.fromID = x.2.toID

instance (m : Manager) (id : String) : Decidable (Isolated m id) :=
  inferInstanceAs (Decidable (∀ _ ∈ _, _))

/-- The merge folds away a node that has no neighbour, into an unambiguous id. -/
def FoldsIsolated (m : Manager) (newID oldID : String) : Prop := SepFree newID ∧ Isolated m oldID

instance (m : Manager) (newID oldID : String) : Decidable (FoldsIsolated m newID oldID) :=
  inferInstanceAs (Decidable (_ ∧ _))

variable {m m' : Manager} {newID oldID hostname k p : String}

theorem isolated_iff : Isolated m k ↔ ∀ p, Joined m k p → p = k := by
  constructor
  · rintro h p ⟨key, e, he, hj⟩
    have hentry := (KeyedMap.mem_entries_iff m.edges key e).mpr he
    rcases hj with ⟨hf, ht⟩ | ⟨hf, ht⟩
    · exact (ht.symm.trans (h ⟨key, e⟩ hentry (Or.inl hf)).symm).trans hf
    · exact (hf.symm.trans (h ⟨key, e⟩ hentry (Or.inr ht))).trans ht
  · intro h x hx hi
    have he := (KeyedMap.mem_entries_iff m.edges x.1 x.2).mp hx
    rcases hi with hf | ht
    · exact hf.trans (h x.2.toID ⟨x.1, x.2, he, Or.inl ⟨hf, rfl⟩⟩).symm
    · exact (h x.2.fromID ⟨x.1, x.2, he, Or.inr ⟨rfl, ht⟩⟩).trans ht.symm

theorem Joined.symm (h : Joined m k p) : Joined m p k := by
  obtain ⟨key, e, he, hj⟩ := h
  exact ⟨key, e, he, Or.symm hj⟩

theorem Linked.joined (h : Linked m) (hj : Joined m k p) :
    (∃ n, m.nodes.lookup k = some n) ∧ ∃ n, m.nodes.lookup p = some n := by
  obtain ⟨key, e, he, ⟨rfl, rfl⟩ | ⟨rfl, rfl⟩⟩ := hj
  · exact h.ends key e he
  · exact ⟨(h.ends key e he).2, (h.ends key e he).1⟩

theorem joined_congr (he : m'.edges = m.edges) : Joined m' k p ↔ Joined m k p := by
  unfold Joined
  rw [he]

/-- The peer sets survive when peers and edges stay. -/
theorem PeersFollow.of_peers (hn : ∀ k n', m'.nodes.lookup k = some n' →
    ∃ n, m.nodes.lookup k = some n ∧ n'.peers = n.peers) (he : m'.edges = m.edges)
    (h : PeersFollow m) : PeersFollow m' := by
  intro k n' hl p
  obtain ⟨n, hl', hp⟩ := hn k n' hl
  rw [hp, joined_congr he]
  exact h k n hl' p

/-! ## One merge -/

section Merge

variable [RuneCase]

/-- The edges left by a merge of an isolated node are those that were not at it. -/
theorem joined_merge (h : Linked m) (hne : oldID ≠ newID) (hnew : SepFree newID)
    (hiso : Isolated m oldID) (hk : k ≠ oldID) :
    Joined (m.mergeNodeInto newID oldID hostname) k p ↔ Joined m k p ∧ p ≠ oldID := by
  have hd := h.wellKeyed.disjoint hnew hne
  have hnorekey : ∀ k' e', m.edges.lookup k' = some e' → ¬ Rekeys newID oldID e' := by
    intro k' e' he' hr
    have hloop := hiso ⟨k', e'⟩ ((KeyedMap.mem_entries_iff _ _ _).mpr he') hr.1
    exact hr.2 (congrArg (repoint newID oldID) hloop)
  constructor
  · rintro ⟨key, e, he, hj⟩
    have he' : (mergeEdges newID oldID m.edges m.edgesByNode).edges.lookup key = some e := he
    obtain ⟨h1, h2, h3, h4, h5⟩ := mergeEdges_lookup hd m.edgesByNode key
    cases hE : m.edges.lookup key with
    | none =>
      rw [h5 hE fun k' e' hk' hr => absurd hr (hnorekey k' e' hk')] at he'
      cases he'
    | some e₀ =>
      by_cases hi : Incident oldID e₀
      · rw [h1 e₀ hE hi] at he'
        cases he'
      · rw [h3 e₀ hE hi fun k' e' hk' hr => absurd hr (hnorekey k' e' hk')] at he'
        cases he'
        refine ⟨⟨key, e, hE, hj⟩, ?_⟩
        rintro rfl
        exact hi (hj.elim (fun hc => Or.inr hc.2) fun hc => Or.inl hc.1)
  · rintro ⟨⟨key, e, he, hj⟩, hp⟩
    refine ⟨key, e, ?_, hj⟩
    have hi : ¬ Incident oldID e := by
      rintro (hf | ht) <;> rcases hj with ⟨h1, h2⟩ | ⟨h1, h2⟩
      · exact hk (h1.symm.trans hf)
      · exact hp (h1.symm.trans hf)
      · exact hp (h2.symm.trans ht)
      · exact hk (h2.symm.trans ht)
    exact (mergeEdges_lookup hd m.edgesByNode key).2.2.1 e he hi
      fun k' e' hk' hr => absurd hr (hnorekey k' e' hk')

/-- The peers of a node after a merge. -/
theorem merge_peers (hne : oldID ≠ newID) {n' : Node}
    (hl : (m.mergeNodeInto newID oldID hostname).nodes.lookup k = some n') :
    k ≠ oldID ∧ ((∃ n, m.nodes.lookup k = some n ∧ n'.peers = n.peers)
      ∨ (k = newID ∧ m.nodes.lookup newID = none
          ∧ ∃ n, m.nodes.lookup oldID = some n ∧ n'.peers = n.peers)) := by
  rw [mergeNodeInto_nodes hne] at hl
  split at hl
  · cases hl
  · rename_i hko
    refine ⟨hko, ?_⟩
    split at hl
    · rename_i hkn
      subst hkn
      cases hn : m.nodes.lookup k with
      | none =>
        cases ho : m.nodes.lookup oldID with
        | none => rw [hn, ho] at hl; cases hl
        | some o => rw [hn, ho] at hl; cases hl; exact Or.inr ⟨rfl, rfl, o, rfl, rfl⟩
      | some n =>
        cases ho : m.nodes.lookup oldID with
        | none => rw [hn, ho] at hl; cases hl; exact Or.inl ⟨n, rfl, rfl⟩
        | some o => rw [hn, ho] at hl; cases hl; exact Or.inl ⟨n, rfl, rfl⟩
    · exact Or.inl ⟨n', hl, rfl⟩

/-- **A merge keeps the peer sets exactly when the node folded away has no neighbour.** -/
theorem peersFollow_merge_iff (h : Linked m) (hne : oldID ≠ newID) (hnew : SepFree newID)
    (hp : PeersFollow m) :
    PeersFollow (m.mergeNodeInto newID oldID hostname) ↔ Isolated m oldID := by
  constructor
  · intro hp'
    by_contra hiso
    rw [isolated_iff] at hiso
    push Not at hiso
    obtain ⟨x, hj, hxo⟩ := hiso
    -- the neighbour is still there, with the old id among its peers
    obtain ⟨-, n, hn⟩ := h.joined hj
    obtain ⟨n', hn'⟩ := (merge_exists_iff m hostname hne x).mpr ⟨hxo, Or.inl ⟨n, hn⟩⟩
    have hmem : oldID ∈ n'.peers := by
      obtain ⟨-, ⟨n₀, hn₀, he⟩ | ⟨rfl, hnone, -⟩⟩ := merge_peers hne hn'
      · rw [he]
        exact (hp x n₀ hn₀ oldID).mpr ⟨hxo.symm, hj.symm⟩
      · rw [hn] at hnone
        cases hnone
    obtain ⟨-, hj'⟩ := (hp' x n' hn' oldID).mp hmem
    have hmerged : Linked (m.mergeNodeInto newID oldID hostname) := h.merge hne hnew
    obtain ⟨-, hold⟩ := hmerged.joined hj'
    exact ((merge_exists_iff m hostname hne oldID).mp hold).1 rfl
  · intro hiso k n' hl p
    obtain ⟨hko, hcase⟩ := merge_peers hne hl
    rw [joined_merge h hne hnew hiso hko]
    rcases hcase with ⟨n, hn, he⟩ | ⟨rfl, hnone, o, ho, he⟩
    · rw [he, hp k n hn p]
      refine and_congr_right fun _ => (and_iff_left_of_imp ?_).symm
      rintro hj rfl
      exact hko (isolated_iff.mp hiso k hj.symm)
    · -- the node is only moved, and neither id has a neighbour
      rw [he, hp oldID o ho p]
      constructor
      · rintro ⟨hpo, hj⟩
        exact absurd (isolated_iff.mp hiso p hj) hpo
      · rintro ⟨-, hj, -⟩
        obtain ⟨⟨n, hn⟩, -⟩ := h.joined hj
        rw [hnone] at hn
        cases hn

/-! ## Counting an endpoint and a packet -/

theorem countEndpoint_peers (m : Manager) (nodeID ip hostname : String) (bytes : Nat) (now : Int)
    {n' : Node} (hl : (m.countEndpoint nodeID ip hostname bytes now).nodes.lookup k = some n') :
    (∃ n, m.nodes.lookup k = some n ∧ n'.peers = n.peers)
      ∨ (k = nodeID ∧ m.nodes.lookup nodeID = none ∧ n'.peers = ∅) := by
  unfold countEndpoint at hl
  dsimp only at hl
  cases hn : m.nodes.lookup nodeID with
  | none =>
    rw [hn] at hl
    dsimp only at hl
    rw [KeyedMap.lookup_insert_eq] at hl
    split at hl
    · rename_i hk
      cases hl
      exact Or.inr ⟨hk, rfl, rfl⟩
    · exact Or.inl ⟨n', hl, rfl⟩
  | some n =>
    rw [hn] at hl
    dsimp only at hl
    rw [KeyedMap.lookup_insert_eq] at hl
    split at hl
    · rename_i hk
      cases hl
      refine Or.inl ⟨n, hk ▸ hn, ?_⟩
      unfold seeNode
      dsimp only
      repeat' split
      all_goals rfl
    · exact Or.inl ⟨n', hl, rfl⟩

theorem PeersFollow.countEndpoint {nodeID ip : String} {bytes : Nat} {now : Int} (h : Linked m)
    (hp : PeersFollow m) : PeersFollow (m.countEndpoint nodeID ip hostname bytes now) := by
  intro k n' hl p
  rw [joined_congr (countEndpoint_edges ..)]
  rcases countEndpoint_peers m nodeID ip hostname bytes now hl with
    ⟨n, hn, he⟩ | ⟨rfl, hnone, he⟩
  · rw [he]
    exact hp k n hn p
  · rw [he]
    refine iff_of_false (AList.notMem_empty p) fun ⟨_, hj⟩ => ?_
    obtain ⟨⟨n, hn⟩, -⟩ := h.joined hj
    rw [hnone] at hn
    cases hn

end Merge

section Packet

variable {srcIP dstIP a b : String} {protocol : Protocol} {bytes : Nat} {now : Int}

/-- A packet joins its two nodes and no others. -/
theorem joined_addOrUpdateEdge (h : Linked m) (ha : m.ipToNodeID.lookup srcIP = some a)
    (hb : m.ipToNodeID.lookup dstIP = some b) :
    Joined (m.addOrUpdateEdgeLocked srcIP dstIP protocol bytes now) k p
      ↔ Joined m k p ∨ (k = a ∧ p = b) ∨ (k = b ∧ p = a) := by
  obtain ⟨na, hna⟩ := h.resolves srcIP a ha
  obtain ⟨nb, hnb⟩ := h.resolves dstIP b hb
  have hsa := (h.ids a na hna).1
  have hsb := (h.ids b nb hnb).1
  obtain ⟨key, f, t, hc⟩ : ∃ key f t, getCanonicalEdgeID a b = (key, f, t) := ⟨_, _, _, rfl⟩
  have hkey : canonKey a b = key := by rw [canonKey, hc]
  have hft : (f = a ∧ t = b) ∨ (f = b ∧ t = a) := by
    rcases getCanonicalEdgeID_cases a b with hcase | hcase <;> rw [hc] at hcase <;> cases hcase
    · exact Or.inl ⟨rfl, rfl⟩
    · exact Or.inr ⟨rfl, rfl⟩
  have hlook := fun k => addOrUpdateEdge_lookup m srcIP dstIP protocol bytes now
    (by rw [resolve_eq ha, resolve_eq hb, hc]) k
  -- the edge under the key joins the two nodes, before and after
  have hafter : ∃ e, (m.addOrUpdateEdgeLocked srcIP dstIP protocol bytes now).edges.lookup key
      = some e ∧ ((e.fromID = a ∧ e.toID = b) ∨ (e.fromID = b ∧ e.toID = a)) := by
    refine ⟨_, (hlook key).trans (if_pos rfl), ?_⟩
    cases he : m.edges.lookup key with
    | none => exact hft
    | some e₀ =>
      obtain ⟨hf, ht, -⟩ := countPacket_ends e₀ (m.resolve srcIP = f) protocol bytes now
      dsimp only
      rw [hf, ht]
      exact h.wellKeyed.endpoints hsa hsb (by rw [between, hkey]; exact he)
  obtain ⟨e₁, he₁, hends₁⟩ := hafter
  constructor
  · rintro ⟨key', e, he, hj⟩
    by_cases hk' : key' = key
    · subst hk'
      rw [he₁] at he
      cases he
      right
      rcases hends₁ with ⟨h1, h2⟩ | ⟨h1, h2⟩ <;> rcases hj with ⟨h3, h4⟩ | ⟨h3, h4⟩
      · exact Or.inl ⟨h3.symm.trans h1, h4.symm.trans h2⟩
      · exact Or.inr ⟨h4.symm.trans h2, h3.symm.trans h1⟩
      · exact Or.inr ⟨h3.symm.trans h1, h4.symm.trans h2⟩
      · exact Or.inl ⟨h4.symm.trans h2, h3.symm.trans h1⟩
    · rw [hlook, if_neg hk'] at he
      exact Or.inl ⟨key', e, he, hj⟩
  · rintro (⟨key', e, he, hj⟩ | hkp)
    · by_cases hk' : key' = key
      · subst hk'
        refine ⟨key', e₁, he₁, ?_⟩
        have hends := h.wellKeyed.endpoints hsa hsb (e := e) (by rw [between, hkey]; exact he)
        unfold Edge.Joins at hj ⊢
        rcases hends with ⟨h1, h2⟩ | ⟨h1, h2⟩ <;> rcases hends₁ with ⟨h3, h4⟩ | ⟨h3, h4⟩ <;>
          rw [h1, h2] at hj <;> rw [h3, h4]
        · exact hj
        · exact hj.symm.imp And.symm And.symm
        · exact hj.symm.imp And.symm And.symm
        · exact hj
      · exact ⟨key', e, by rw [hlook, if_neg hk']; exact he, hj⟩
    · refine ⟨key, e₁, he₁, ?_⟩
      rcases hkp with ⟨rfl, rfl⟩ | ⟨rfl, rfl⟩
      · exact hends₁
      · exact Or.symm hends₁

/-- A packet makes its two nodes each other's peers. -/
theorem addPeersLocked_peers (m : Manager) (a b : String) (ha : ∃ n, m.nodes.lookup a = some n)
    (hb : ∃ n, m.nodes.lookup b = some n) {n' : Node}
    (hl : (m.addPeersLocked a b).nodes.lookup k = some n') :
    ∃ n, m.nodes.lookup k = some n
      ∧ ∀ p, p ∈ n'.peers ↔ p ∈ n.peers ∨ (a ≠ b ∧ ((k = a ∧ p = b) ∨ (k = b ∧ p = a))) := by
  unfold addPeersLocked at hl
  by_cases hab : a = b
  · rw [if_pos hab] at hl
    exact ⟨n', hl, fun p => (or_iff_left fun hc => hc.1 hab).symm⟩
  · have hguard : ¬ (m.nodes.lookup a = none ∨ m.nodes.lookup b = none) := by
      rw [not_or]
      exact ⟨Option.ne_none_iff_exists'.mpr ha, Option.ne_none_iff_exists'.mpr hb⟩
    rw [if_neg hab, if_neg hguard] at hl
    unfold addPeer at hl
    dsimp only at hl
    rw [KeyedMap.lookup_adjust, KeyedMap.lookup_adjust] at hl
    by_cases hka : k = a
    · subst hka
      rw [if_neg hab, if_pos rfl] at hl
      obtain ⟨n, hn, rfl⟩ := Option.map_eq_some_iff.mp hl
      refine ⟨n, hn, fun p => ?_⟩
      rw [AList.mem_insert]
      simp [hab, or_comm]
    · by_cases hkb : k = b
      · subst hkb
        rw [if_pos rfl, if_neg hka] at hl
        obtain ⟨n, hn, rfl⟩ := Option.map_eq_some_iff.mp hl
        refine ⟨n, hn, fun p => ?_⟩
        rw [AList.mem_insert]
        simp [hab, hka, or_comm]
      · rw [if_neg hkb, if_neg hka] at hl
        exact ⟨n', hl, fun p => by simp [hka, hkb]⟩

theorem PeersFollow.addOrUpdateEdge (h : Linked m) (hp : PeersFollow m)
    (hsrc : ∃ k, m.ipToNodeID.lookup srcIP = some k)
    (hdst : ∃ k, m.ipToNodeID.lookup dstIP = some k) :
    PeersFollow (m.addOrUpdateEdgeLocked srcIP dstIP protocol bytes now) := by
  obtain ⟨a, ha⟩ := hsrc
  obtain ⟨b, hb⟩ := hdst
  have hna := h.resolves srcIP a ha
  have hnb := h.resolves dstIP b hb
  intro k n' hl p
  rw [joined_addOrUpdateEdge h ha hb]
  obtain ⟨key, f, t, hc⟩ : ∃ key f t, getCanonicalEdgeID ((m.countProtocol protocol).resolve srcIP)
    ((m.countProtocol protocol).resolve dstIP) = (key, f, t) := ⟨_, _, _, rfl⟩
  have hft : (f = a ∧ t = b) ∨ (f = b ∧ t = a) := by
    have hra : (m.countProtocol protocol).resolve srcIP = a := resolve_eq ha
    have hrb : (m.countProtocol protocol).resolve dstIP = b := resolve_eq hb
    rw [hra, hrb] at hc
    rcases getCanonicalEdgeID_cases a b with hcase | hcase <;> rw [hc] at hcase <;> cases hcase
    · exact Or.inl ⟨rfl, rfl⟩
    · exact Or.inr ⟨rfl, rfl⟩
  have hl' : ((m.countProtocol protocol).addPeersLocked f t).nodes.lookup k = some n' := by
    unfold addOrUpdateEdgeLocked at hl
    dsimp only at hl
    rw [hc] at hl
    dsimp only at hl
    unfold countOnEdge at hl
    split at hl <;> exact hl
  have hnf : ∃ n, (m.countProtocol protocol).nodes.lookup f = some n := by
    rcases hft with ⟨rfl, -⟩ | ⟨rfl, -⟩
    · exact hna
    · exact hnb
  have hnt : ∃ n, (m.countProtocol protocol).nodes.lookup t = some n := by
    rcases hft with ⟨-, rfl⟩ | ⟨-, rfl⟩
    · exact hnb
    · exact hna
  obtain ⟨n, hn, hmem⟩ := addPeersLocked_peers _ f t hnf hnt hl'
  rw [hmem p, hp k n hn p]
  have hpair : (f ≠ t ∧ ((k = f ∧ p = t) ∨ (k = t ∧ p = f)))
      ↔ p ≠ k ∧ ((k = a ∧ p = b) ∨ (k = b ∧ p = a)) := by
    rcases hft with ⟨rfl, rfl⟩ | ⟨rfl, rfl⟩
    · constructor
      · rintro ⟨hne, ⟨rfl, rfl⟩ | ⟨rfl, rfl⟩⟩
        · exact ⟨hne.symm, Or.inl ⟨rfl, rfl⟩⟩
        · exact ⟨hne, Or.inr ⟨rfl, rfl⟩⟩
      · rintro ⟨hne, ⟨rfl, rfl⟩ | ⟨rfl, rfl⟩⟩
        · exact ⟨hne.symm, Or.inl ⟨rfl, rfl⟩⟩
        · exact ⟨hne, Or.inr ⟨rfl, rfl⟩⟩
    · constructor
      · rintro ⟨hne, ⟨rfl, rfl⟩ | ⟨rfl, rfl⟩⟩
        · exact ⟨hne.symm, Or.inr ⟨rfl, rfl⟩⟩
        · exact ⟨hne, Or.inl ⟨rfl, rfl⟩⟩
      · rintro ⟨hne, ⟨rfl, rfl⟩ | ⟨rfl, rfl⟩⟩
        · exact ⟨hne, Or.inr ⟨rfl, rfl⟩⟩
        · exact ⟨hne.symm, Or.inl ⟨rfl, rfl⟩⟩
  rw [hpair, ← and_or_left]

end Packet

/-! ## Runs of `Ingest` -/

section Runs

variable [RuneCase]

theorem peersFollow_upheld :
    Upheld SepFree FoldsIsolated (fun m => Linked m ∧ PeersFollow m) where
  touched ht h := by
    refine ⟨h.1.touched ht, h.2.of_peers (fun k n' hl => ?_) ht.edges⟩
    obtain ⟨n, hn, hr⟩ := ht.nodes.lookup hl
    exact ⟨n, hn, hr.peers⟩
  admissible h hl := h.1.ids _ _ hl
  claim hname h := by
    refine ⟨h.1.claim hname, h.2.of_peers (fun k n' hl => ?_) (claimHostname_kept _ _ _).edges⟩
    refine ⟨n', ?_, rfl⟩
    unfold claimHostname at hl
    split at hl <;> exact hl
  merge hne hnew hP h := ⟨h.1.merge hne hnew, (peersFollow_merge_iff h.1 hne hnew h.2).mpr hP.2⟩
  labels hg := groupAddressLabel_sepFree hg
  named h hl := h.1.names _ _ hl
  endpoint hid hip h := ⟨h.1.countEndpoint hid hip, h.2.countEndpoint h.1⟩
  packet hsrc hdst h := ⟨h.1.addOrUpdateEdge hsrc hdst, h.2.addOrUpdateEdge h.1 hsrc hdst⟩

/--
**Peer sets follow identity in every run whose merges fold away isolated nodes.**
Each merge must also be into an id without the separator, which is the case
unless a MAC contains it.
-/
theorem peersFollow_run (calls : List IngestCall) (hids : ∀ c ∈ calls, c.Unambiguous)
    (hmerges : Run.Guarded IngestCall.apply (fun m c => c.Merges FoldsIsolated m) newManager calls) :
    PeersFollow (ingestAll calls) := by
  refine (peersFollow_upheld.run ⟨linked_init, nofun⟩ (fun c hc => ?_) hmerges).2
  obtain ⟨hsrc, hdst, hsh, hdh⟩ := hids c hc
  exact ⟨hsrc, hdst, hsh, hdh, fun _ _ hP => hP.1, fun _ _ hP => hP.1⟩

end Runs

/-- Two hosts that talk to one server; the second shows a MAC before its first packet is counted. -/
def twoClientsRun : List IngestCall :=
  [{ pkt := { srcIP := "10.0.0.5", dstIP := "10.0.0.7", length := 60 } },
   { pkt := { srcIP := "10.0.0.6", dstIP := "10.0.0.7", srcMAC := "aa:bb:cc:00:11:22", length := 60 } }]

theorem peersFollow_run_twoClients : PeersFollow (ingestAll twoClientsRun) := by
  refine peersFollow_run twoClientsRun (fun c hc => ?_) (by decide)
  rw [twoClientsRun, List.mem_cons, List.mem_singleton] at hc
  rcases hc with rfl | rfl <;> exact ⟨by decide, by decide, by decide, by decide⟩

/-- A host that is heard by its address first and by its name afterwards. -/
def namedLaterRun : List IngestCall :=
  [{ pkt := { srcIP := "10.0.0.5", dstIP := "10.0.0.7", length := 60 } },
   { pkt := { srcIP := "10.0.0.5", dstIP := "10.0.0.7", length := 60 }, srcHostname := "nas" }]

/-- The server then has two peers, of which only one is a node. -/
theorem peersFollow_namedLater : ¬ ∀ calls : List IngestCall, (∀ c ∈ calls, c.Unambiguous) →
    PeersFollow (ingestAll calls) := by
  intro h
  have hids : ∀ c ∈ namedLaterRun, c.Unambiguous := by
    intro c hc
    rw [namedLaterRun, List.mem_cons, List.mem_singleton] at hc
    rcases hc with rfl | rfl <;> exact ⟨by decide, by decide, by decide, by decide⟩
  have hpeer : ((ingestAll namedLaterRun).nodes.lookup "10.0.0.7").map
      (fun n => decide ("10.0.0.5" ∈ n.peers)) = some true := by
    decide
  have hlone : ∀ x ∈ (ingestAll namedLaterRun).edges.entries,
      ¬ x.2.Joins "10.0.0.7" "10.0.0.5" := by
    decide
  obtain ⟨n, hn, hmem⟩ := Option.map_eq_some_iff.mp hpeer
  obtain ⟨-, key, e, he, hj⟩ := (h namedLaterRun hids "10.0.0.7" n hn "10.0.0.5").mp
    (of_decide_eq_true hmem)
  exact hlone ⟨key, e⟩ ((KeyedMap.mem_entries_iff _ _ _).mpr he) hj

end Etherchimp
