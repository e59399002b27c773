import Etherchimp.Graph.RawTopo
import Etherchimp.Proof.Solar

/-!
# What a raw topology holds

Nodes get their indices while the edges are written, from a table that is only ever
appended to. So an index, once given out, keeps meaning the same node, and a run of
the two loops is followed by what one call appends: `IdTable` for the node table,
`ProtoTable` for the protocol table, `EdgesOut` for the edges written so far.

An index is a `uint32`. It names its node as long as no more than `2 ^ 32` of them are
kept; the protocol table stops growing at 255 entries.
-/

namespace Etherchimp

open Panic RawTopo

/-! ## What is visible -/

namespace RawTopo

theorem nodeByID_isSome (nodes : List Node) (id : String) :
    (nodeByID nodes).lookup id ≠ none ↔ id ∈ nodes.map Node.ip := by
  unfold nodeByID
  induction nodes using List.reverseRecOn with
  | nil => simp
  | append_singleton nodes n ih =>
    rw [List.foldl_append, List.foldl_cons, List.foldl_nil, KeyedMap.lookup_insert_eq,
      List.map_append, List.mem_append, ← ih]
    by_cases hid : id = n.ip
    · simp [hid]
    · simp [hid]

/-- An edge that is shown: its protocol is not hidden and both its endpoints are known. -/
def shows (nodes : KeyedMap String Node) (hidden : KeyedMap String Bool) (e : Edge) : Bool :=
  hidden.lookup e.protocol.name ≠ some true ∧ nodes.lookup e.fromID ≠ none
    ∧ nodes.lookup e.toID ≠ none

theorem lookup_addPackets (m : KeyedMap String Nat) (a id : String) (p : Nat) :
    (addPackets m a p).lookup id ≠ none ↔ id = a ∨ m.lookup id ≠ none := by
  unfold addPackets
  rw [KeyedMap.lookup_insert_eq]
  by_cases hid : id = a
  · simp [hid]
  · simp [hid]

/-- The candidates are the endpoints of the shown edges. -/
theorem see_foldl (nodes : KeyedMap String Node) (hidden : KeyedMap String Bool)
    (edges : List Edge) (s : Visible) :
    (edges.foldl (see nodes hidden) s).edges = s.edges ++ edges.filter (shows nodes hidden)
      ∧ ∀ id, (edges.foldl (see nodes hidden) s).packetsByNode.lookup id ≠ none
        ↔ s.packetsByNode.lookup id ≠ none
          ∨ ∃ e ∈ edges.filter (shows nodes hidden), id = e.fromID ∨ id = e.toID := by
  induction edges generalizing s with
  | nil => simp
  | cons e edges ih =>
    rw [List.foldl_cons]
    obtain ⟨hedges, hkeys⟩ := ih (see nodes hidden s e)
    by_cases hs : shows nodes hidden e = true
    · have hs' : hidden.lookup e.protocol.name ≠ some true ∧ nodes.lookup e.fromID ≠ none
          ∧ nodes.lookup e.toID ≠ none := by
        simpa [shows] using hs
      have hsee : (see nodes hidden s e).edges = s.edges ++ [e]
          ∧ ∀ id, (see nodes hidden s e).packetsByNode.lookup id ≠ none
            ↔ s.packetsByNode.lookup id ≠ none ∨ id = e.fromID ∨ id = e.toID := by
        unfold see
        rw [if_neg hs'.1, if_neg (by rw [not_or]; exact hs'.2)]
        refine ⟨rfl, fun id => ?_⟩
        dsimp only
        split
        · rw [lookup_addPackets, lookup_addPackets]
          tauto
        · rename_i hto
          rw [not_not] at hto
          rw [lookup_addPackets, hto]
          tauto
      rw [List.filter_cons_of_pos hs]
      refine ⟨?_, fun id => ?_⟩
      · rw [hedges, hsee.1, List.append_assoc, List.singleton_append]
      · rw [hkeys, hsee.2]
        simp only [List.mem_cons, exists_eq_or_imp, or_assoc]
    · have hsee : see nodes hidden s e = s := by
        unfold see
        split
        · rfl
        · rename_i hh
          rw [if_pos]
          by_contra hn
          rw [not_or] at hn
          exact hs (by simpa [shows] using ⟨hh, hn⟩)
      rw [List.filter_cons_of_neg hs]
      rw [hsee] at hedges hkeys ⊢
      exact ⟨hedges, hkeys⟩

theorem seed_foldl (nodes : List Node) (m : KeyedMap String Nat) (id : String) :
    (nodes.foldl seed m).lookup id ≠ none ↔ m.lookup id ≠ none ∨ id ∈ nodes.map Node.ip := by
  induction nodes generalizing m with
  | nil => simp
  | cons n nodes ih =>
    have hseed : (seed m n).lookup id ≠ none ↔ m.lookup id ≠ none ∨ id = n.ip := by
      unfold seed
      split
      · rename_i hm
        refine ⟨Or.inl, fun h => h.elim (fun h => h) ?_⟩
        rintro rfl
        exact Option.isSome_iff_ne_none.mp hm
      · rw [KeyedMap.lookup_insert_eq]
        by_cases hid : id = n.ip
        · simp [hid]
        · simp [hid]
    rw [List.foldl_cons, ih, hseed, List.map_cons, List.mem_cons]
    tauto

/-! ## The cap -/

theorem length_eraseAll (m : KeyedMap String Nat) (ids : List String) (hnd : ids.Nodup)
    (hids : ∀ id ∈ ids, m.lookup id ≠ none) :
    (m.eraseAll ids).entries.length = m.entries.length - ids.length := by
  induction ids generalizing m with
  | nil => simp [KeyedMap.eraseAll]
  | cons id ids ih =>
    rw [List.nodup_cons] at hnd
    obtain ⟨x, hx⟩ := Option.ne_none_iff_exists'.mp (hids id List.mem_cons_self)
    have herase := KeyedMap.length_keys_erase hx
    simp only [AList.keys, List.keys, List.length_map] at herase
    have hrest : ∀ a ∈ ids, (m.erase id).lookup a ≠ none := fun a ha => by
      have hne : a ≠ id := fun h => hnd.1 (h ▸ ha)
      rw [KeyedMap.lookup_erase_eq, if_neg hne]
      exact hids a (List.mem_cons_of_mem _ ha)
    change (KeyedMap.eraseAll (m.erase id) ids).entries.length = _
    rw [ih (m.erase id) hnd.2 hrest, herase, List.length_cons]
    omega

/-- The cap keeps candidates only, at most `n`, and all of them when they fit. -/
theorem cap_spec (go : Runtime) (n : Nat) (m : KeyedMap String Nat) :
    (cap go n m).entries.length ≤ n ∧ (∀ id, (cap go n m).lookup id ≠ none → m.lookup id ≠ none)
      ∧ (m.entries.length ≤ n → cap go n m = m) := by
  unfold cap
  by_cases hn : n < m.entries.length
  · rw [if_pos hn]
    dsimp only
    generalize hsorted : go.sortSlice _ ((go.rangeOf m).map fun e => e.1) = ids
    have hperm : ids.Perm m.keys := by
      rw [← hsorted]
      exact (go.sortSlice_perm _ _).trans ((go.rangeOf_perm m).map _)
    have hlen : ids.length = m.entries.length := by
      rw [hperm.length_eq]
      exact List.length_map _
    have hmem : ∀ id ∈ ids.drop n, m.lookup id ≠ none := fun id hid => by
      obtain ⟨x, hx⟩ := (KeyedMap.mem_keys_iff m id).mp (hperm.mem_iff.mp (List.mem_of_mem_drop hid))
      rw [hx]
      exact Option.some_ne_none x
    have hnd : (ids.drop n).Nodup := (hperm.nodup_iff.mpr m.nodupKeys).sublist (List.drop_sublist n _)
    refine ⟨?_, fun id hid => ?_, fun h => by omega⟩
    · rw [length_eraseAll m _ hnd hmem, List.length_drop, hlen]
      omega
    · rw [KeyedMap.lookup_eraseAll] at hid
      split at hid
      · exact absurd rfl hid
      · exact hid
  · rw [if_neg hn]
    exact ⟨by omega, fun _ h => h, fun _ => rfl⟩

/-! ## The node table -/

/-- The index is the one given to the node at its place. -/
def At (ids : List String) (id : String) (i : UInt32) : Prop :=
  ∃ j, ids[j]? = some id ∧ i = UInt32.ofNat j

section At

variable {ids more : List String} {id : String} {i : UInt32}

theorem At.append (h : At ids id i) : At (ids ++ more) id i := by
  obtain ⟨j, hj, hi⟩ := h
  refine ⟨j, ?_, hi⟩
  rw [List.getElem?_append_left (List.getElem?_eq_some_iff.mp hj).1]
  exact hj

theorem At.lt (h : At ids id i) : i.toNat < ids.length := by
  obtain ⟨j, hj, rfl⟩ := h
  rw [UInt32.toNat_ofNat']
  exact Nat.lt_of_le_of_lt (Nat.mod_le j _) (List.getElem?_eq_some_iff.mp hj).1

/-- An index that did not wrap around names its node. -/
theorem At.get (h : At ids id i) (hlen : ids.length ≤ 2 ^ 32) : ids[i.toNat]? = some id := by
  obtain ⟨j, hj, rfl⟩ := h
  have hlt := (List.getElem?_eq_some_iff.mp hj).1
  rw [UInt32.toNat_ofNat', Nat.mod_eq_of_lt (by omega)]
  exact hj

end At

variable {F : Type} {k : Capped F} {s s' : Emit} {es : List Edge}

structure IdTable (k : Capped F) (s : Emit) : Prop where
  nodup : s.t.ids.Nodup
  kept : ∀ id ∈ s.t.ids, k.packets.lookup id ≠ none
  tiers : s.t.tiers.length = s.t.ids.length
  flags : s.t.flags.length = s.t.ids.length
  index : ∀ id i, s.index.lookup id = some i → At s.t.ids id i
  indexed : ∀ id ∈ s.t.ids, s.index.lookup id ≠ none

/-- Only the node table changed, and it only grew. -/
structure Grows (s s' : Emit) : Prop where
  ids : ∃ more, s'.t.ids = s.t.ids ++ more
  edgeA : s'.t.edgeA = s.t.edgeA
  edgeB : s'.t.edgeB = s.t.edgeB
  edgeProto : s'.t.edgeProto = s.t.edgeProto
  protos : s'.t.protos = s.t.protos
  protoIdx : s'.protoIdx = s.protoIdx

theorem Grows.refl (s : Emit) : Grows s s := ⟨⟨[], by rw [List.append_nil]⟩, rfl, rfl, rfl, rfl, rfl⟩

theorem Grows.mem (h : Grows s s') {id : String} (hid : id ∈ s.t.ids) : id ∈ s'.t.ids := by
  obtain ⟨more, hmore⟩ := h.ids
  rw [hmore]
  exact List.mem_append_left _ hid

theorem Grows.at (h : Grows s s') {id : String} {i : UInt32} (hi : At s.t.ids id i) :
    At s'.t.ids id i := by
  obtain ⟨more, hmore⟩ := h.ids
  rw [hmore]
  exact hi.append

/-- **One node is written** with the index it is known by from then on. -/
theorem addNode_spec [FloatMath F] (h : IdTable k s) {id : String}
    (hkept : k.packets.lookup id ≠ none) (hnode : k.nodes.lookup id ≠ none) :
    Ends (addNode k s id) fun r => IdTable k r.2 ∧ Grows s r.2 ∧ At r.2.t.ids id r.1 := by
  unfold addNode
  cases hidx : s.index.lookup id with
  | some i => exact ends_ok ⟨h, Grows.refl s, h.index id i hidx⟩
  | none =>
    obtain ⟨n, hn⟩ := Option.ne_none_iff_exists'.mp hnode
    have hnew : id ∉ s.t.ids := fun hm => h.indexed id hm hidx
    have hat : At (s.t.ids ++ [id]) id (UInt32.ofNat s.t.ids.length) :=
      ⟨s.t.ids.length, by simp, rfl⟩
    dsimp only
    rw [hn]
    refine ends_ok ⟨?_, ⟨⟨[id], rfl⟩, rfl, rfl, rfl, rfl, rfl⟩, hat⟩
    exact
      { nodup := by
          refine List.nodup_append.mpr ⟨h.nodup, List.nodup_singleton id, fun a ha b hb => ?_⟩
          rw [List.mem_singleton] at hb
          subst hb
          rintro rfl
          exact hnew ha
        kept := fun a ha => by
          rcases List.mem_append.mp ha with ha | ha
          · exact h.kept a ha
          · rw [List.mem_singleton] at ha
            subst ha
            exact hkept
        tiers := by simp [h.tiers]
        flags := by simp [h.flags]
        index := fun a i ha => by
          rw [KeyedMap.lookup_insert_eq] at ha
          split at ha
          · rename_i hai
            subst hai
            cases ha
            exact hat
          · exact (h.index a i ha).append
        indexed := fun a ha => by
          rw [KeyedMap.lookup_insert_eq]
          split
          · exact Option.some_ne_none _
          · rename_i hai
            rcases List.mem_append.mp ha with ha | ha
            · exact h.indexed a ha
            · exact absurd (List.mem_singleton.mp ha) hai }

/-! ## The protocol table -/

/-- The index of a protocol: where it stands, or the first entry of a full table without it. -/
def Stands (protos : List Protocol) (name : String) (i : UInt8) : Prop :=
  (protos[i.toNat]?).map Protocol.name = some name
    ∨ protos.length = 255 ∧ name ∉ protos.map Protocol.name ∧ i = 0

theorem Stands.append {protos more : List Protocol} {name : String} {i : UInt8}
    (h : Stands protos name i) (hlen : (protos ++ more).length ≤ 255) :
    Stands (protos ++ more) name i := by
  rcases h with h | ⟨hfull, h⟩
  · refine Or.inl ?_
    obtain ⟨p, hp, hname⟩ := Option.map_eq_some_iff.mp h
    rw [List.getElem?_append_left (List.getElem?_eq_some_iff.mp hp).1]
    exact h
  · rw [List.length_append] at hlen
    rw [List.eq_nil_of_length_eq_zero (show more.length = 0 by omega), List.append_nil]
    exact Or.inr ⟨hfull, h⟩

theorem Stands.lt {protos : List Protocol} {name : String} {i : UInt8}
    (h : Stands protos name i) : i.toNat < protos.length := by
  rcases h with h | ⟨hfull, -, rfl⟩
  · obtain ⟨p, hp, -⟩ := Option.map_eq_some_iff.mp h
    exact (List.getElem?_eq_some_iff.mp hp).1
  · rw [hfull]
    decide

structure ProtoTable (s : Emit) : Prop where
  atMost : s.t.protos.length ≤ 255
  nodup : (s.t.protos.map Protocol.name).Nodup
  index : ∀ name i, s.protoIdx.lookup name = some i →
    (s.t.protos[i.toNat]?).map Protocol.name = some name
  indexed : ∀ name ∈ s.t.protos.map Protocol.name, s.protoIdx.lookup name ≠ none

theorem addProto_spec (h : ProtoTable s) (p : Protocol) :
    ProtoTable (addProto s p).2 ∧ Stands (addProto s p).2.t.protos p.name (addProto s p).1
      ∧ ∃ more, (∀ q ∈ more, q = p)
        ∧ (addProto s p).2.t = { s.t with protos := s.t.protos ++ more }
        ∧ (addProto s p).2.index = s.index := by
  unfold addProto
  cases hidx : s.protoIdx.lookup p.name with
  | some i => exact ⟨h, Or.inl (h.index p.name i hidx), [], nofun, by simp, rfl⟩
  | none =>
    dsimp only
    have hnew : p.name ∉ s.t.protos.map Protocol.name := fun hm => h.indexed p.name hm hidx
    by_cases hfull : 255 ≤ s.t.protos.length
    · rw [if_pos hfull]
      exact ⟨h, Or.inr ⟨Nat.le_antisymm h.atMost hfull, hnew, rfl⟩, [], nofun, by simp, rfl⟩
    · rw [if_neg hfull]
      have hlen : (UInt8.ofNat s.t.protos.length).toNat = s.t.protos.length := by
        rw [UInt8.toNat_ofNat', Nat.mod_eq_of_lt (by omega)]
      have hat : ((s.t.protos ++ [p])[(UInt8.ofNat s.t.protos.length).toNat]?).map Protocol.name
          = some p.name := by
        rw [hlen]
        simp
      refine ⟨?_, Or.inl hat, [p], fun q hq => List.mem_singleton.mp hq, rfl, rfl⟩
      exact
        { atMost := by
            rw [List.length_append, List.length_singleton]
            omega
          nodup := by
            rw [List.map_append]
            refine List.nodup_append.mpr ⟨h.nodup, List.nodup_singleton _, fun a ha b hb => ?_⟩
            rw [List.map_singleton, List.mem_singleton] at hb
            subst hb
            rintro rfl
            exact hnew ha
          index := fun name i hi => by
            rw [KeyedMap.lookup_insert_eq] at hi
            split at hi
            · rename_i hname
              subst hname
              cases hi
              exact hat
            · have := h.index name i hi
              obtain ⟨q, hq, -⟩ := Option.map_eq_some_iff.mp this
              rw [List.getElem?_append_left (List.getElem?_eq_some_iff.mp hq).1]
              exact this
          indexed := fun name hm => by
            rw [KeyedMap.lookup_insert_eq]
            split
            · exact Option.some_ne_none _
            · rename_i hname
              rw [List.map_append, List.mem_append] at hm
              rcases hm with hm | hm
              · exact h.indexed name hm
              · exact absurd (List.mem_singleton.mp hm) hname }

/-! ## The edges -/

/-- The edges written so far, in order, each with its two indices and its protocol. -/
structure EdgesOut (es : List Edge) (t : RawTopology) : Prop where
  edgeA : List.Forall₂ (fun (e : Edge) i => At t.ids e.fromID i) es t.edgeA
  edgeB : List.Forall₂ (fun (e : Edge) i => At t.ids e.toID i) es t.edgeB
  edgeProto : List.Forall₂ (fun (e : Edge) i => Stands t.protos e.protocol.name i) es t.edgeProto
  protos : ∀ p ∈ t.protos, ∃ e ∈ es, e.protocol.name = p.name

structure Emitted (k : Capped F) (es : List Edge) (s : Emit) : Prop where
  indexed : IdTable k s
  tabled : ProtoTable s
  linked : EdgesOut es s.t

theorem EdgesOut.grows (h : EdgesOut es s.t) (hg : Grows s s') : EdgesOut es s'.t := by
  obtain ⟨more, hmore⟩ := hg.ids
  exact
    { edgeA := by
        rw [hg.edgeA]
        exact h.edgeA.imp fun e i hi => hg.at hi
      edgeB := by
        rw [hg.edgeB]
        exact h.edgeB.imp fun e i hi => hg.at hi
      edgeProto := by
        rw [hg.edgeProto, hg.protos]
        exact h.edgeProto
      protos := by
        rw [hg.protos]
        exact h.protos }

theorem ProtoTable.grows (h : ProtoTable s) (hg : Grows s s') : ProtoTable s' :=
  { atMost := by
      rw [hg.protos]
      exact h.atMost
    nodup := by
      rw [hg.protos]
      exact h.nodup
    index := by
      rw [hg.protos, hg.protoIdx]
      exact h.index
    indexed := by
      rw [hg.protos, hg.protoIdx]
      exact h.indexed }

theorem written_grows (h : Emitted k es s) (hi : IdTable k s') (hg : Grows s s') :
    Emitted k es s' := ⟨hi, h.tabled.grows hg, h.linked.grows hg⟩

/-- Both endpoints of the edge are kept. -/
def keeps (k : Capped F) (e : Edge) : Bool :=
  k.packets.lookup e.fromID ≠ none ∧ k.packets.lookup e.toID ≠ none

theorem forall₂_concat {α β : Type} {R : α → β → Prop} {l : List α} {m : List β} {a : α} {b : β}
    (h : List.Forall₂ R l m) (hab : R a b) : List.Forall₂ R (l ++ [a]) (m ++ [b]) :=
  List.rel_append h (List.Forall₂.cons hab List.Forall₂.nil)

/-- **One edge is written**, with the indices of its endpoints. -/
theorem emitEdge_spec [FloatMath F] (hnodes : ∀ id, k.packets.lookup id ≠ none → k.nodes.lookup id ≠ none)
    (h : Emitted k es s) (e : Edge) :
    Ends (emitEdge k s e) (Emitted k (es ++ [e].filter (keeps k))) := by
  unfold emitEdge
  by_cases hk : k.packets.lookup e.fromID = none ∨ k.packets.lookup e.toID = none
  · have hkeeps : keeps k e = false := by
      rw [← Bool.not_eq_true]
      simp only [keeps, decide_eq_true_eq]
      tauto
    rw [if_pos hk, List.filter_cons_of_neg (by simp [hkeeps]), List.filter_nil, List.append_nil]
    exact ends_ok h
  · have hkeeps : keeps k e = true := by
      simp only [keeps, decide_eq_true_eq]
      tauto
    rw [not_or] at hk
    rw [if_neg (by tauto), List.filter_cons_of_pos hkeeps, List.filter_nil]
    obtain ⟨htab, hproto, more, hmore, ht, hindex⟩ := addProto_spec h.tabled e.protocol
    generalize hadd : addProto s e.protocol = r at htab hproto ht hindex ⊢
    obtain ⟨p, s₁⟩ := r
    dsimp only at htab hproto ht hindex ⊢
    have hids : s₁.t.ids = s.t.ids := by rw [ht]
    have hind₁ : IdTable k s₁ :=
      { nodup := by rw [hids]; exact h.indexed.nodup
        kept := by rw [hids]; exact h.indexed.kept
        tiers := by rw [ht]; exact h.indexed.tiers
        flags := by rw [ht]; exact h.indexed.flags
        index := by rw [hindex, hids]; exact h.indexed.index
        indexed := by rw [hindex, hids]; exact h.indexed.indexed }
    refine (addNode_spec hind₁ hk.1 (hnodes _ hk.1)).bind ?_
    rintro ⟨a, s₂⟩ ⟨hind₂, hg₂, ha⟩
    dsimp only at hind₂ hg₂ ha ⊢
    -- the index of the source is stored before the target is looked up
    refine (addNode_spec (s := { s₂ with t := { s₂.t with edgeA := s₂.t.edgeA ++ [a] } })
      ⟨hind₂.nodup, hind₂.kept, hind₂.tiers, hind₂.flags, hind₂.index, hind₂.indexed⟩
      hk.2 (hnodes _ hk.2)).bind ?_
    rintro ⟨b, s₃⟩ ⟨hind₃, hg₃, hb⟩
    dsimp only at hind₃ hg₃ hb ⊢
    have hprotos : s₃.t.protos = s.t.protos ++ more := by rw [hg₃.protos, hg₂.protos, ht]
    have hmem : ∀ {id : String} {i : UInt32}, At s.t.ids id i → At s₃.t.ids id i := fun hi =>
      hg₃.at (hg₂.at (hids ▸ hi))
    refine ends_ok ⟨?_, ?_, ?_⟩
    · exact ⟨hind₃.nodup, hind₃.kept, hind₃.tiers, hind₃.flags, hind₃.index, hind₃.indexed⟩
    · have htab₃ := (htab.grows hg₂)
      exact
        { atMost := by
            rw [show s₃.t.protos = s₂.t.protos from hg₃.protos]
            exact htab₃.atMost
          nodup := by
            rw [show s₃.t.protos = s₂.t.protos from hg₃.protos]
            exact htab₃.nodup
          index := by
            rw [show s₃.t.protos = s₂.t.protos from hg₃.protos,
              show s₃.protoIdx = s₂.protoIdx from hg₃.protoIdx]
            exact htab₃.index
          indexed := by
            rw [show s₃.t.protos = s₂.t.protos from hg₃.protos,
              show s₃.protoIdx = s₂.protoIdx from hg₃.protoIdx]
            exact htab₃.indexed }
    · have hlen : (s.t.protos ++ more).length ≤ 255 := by
        have := htab.atMost
        rw [ht] at this
        exact this
      exact
        { edgeA := by
            rw [show s₃.t.edgeA = s₂.t.edgeA ++ [a] from hg₃.edgeA, hg₂.edgeA, ht]
            exact forall₂_concat (h.linked.edgeA.imp fun e i hi => hmem hi) (hg₃.at ha)
          edgeB := by
            change List.Forall₂ _ _ (s₃.t.edgeB ++ [b])
            rw [show s₃.t.edgeB = s₂.t.edgeB from hg₃.edgeB, hg₂.edgeB, ht]
            exact forall₂_concat (h.linked.edgeB.imp fun e i hi => hmem hi) hb
          edgeProto := by
            change List.Forall₂ _ _ (s₃.t.edgeProto ++ [p])
            rw [show s₃.t.edgeProto = s₂.t.edgeProto from hg₃.edgeProto, hg₂.edgeProto, ht]
            change List.Forall₂ (fun (e : Edge) i => Stands s₃.t.protos e.protocol.name i) _ _
            rw [hprotos]
            refine forall₂_concat (h.linked.edgeProto.imp fun e i hi => hi.append hlen) ?_
            rw [ht] at hproto
            exact hproto
          protos := by
            change ∀ q ∈ s₃.t.protos, _
            rw [hprotos]
            intro q hq
            rcases List.mem_append.mp hq with hq | hq
            · obtain ⟨e', he', hname⟩ := h.linked.protos q hq
              exact ⟨e', List.mem_append_left _ he', hname⟩
            · exact ⟨e, by simp, by rw [hmore q hq]⟩ }

theorem emitEdges_spec [FloatMath F]
    (hnodes : ∀ id, k.packets.lookup id ≠ none → k.nodes.lookup id ≠ none) (edges : List Edge)
    (h : Emitted k es s) :
    Ends (edges.foldlM (emitEdge k) s) (Emitted k (es ++ edges.filter (keeps k))) := by
  induction edges generalizing es s with
  | nil =>
    rw [List.filter_nil, List.append_nil]
    exact ends_pure h
  | cons e edges ih =>
    rw [List.foldlM_cons]
    refine (emitEdge_spec hnodes h e).bind fun s' hs' => ?_
    have hsplit : es ++ (e :: edges).filter (keeps k)
        = es ++ [e].filter (keeps k) ++ edges.filter (keeps k) := by
      rw [List.append_assoc, ← List.filter_append, List.singleton_append]
    rw [hsplit]
    exact ih hs'

/-- The nodes left over are written behind. -/
theorem emitNodes_spec [FloatMath F]
    (hnodes : ∀ id, k.packets.lookup id ≠ none → k.nodes.lookup id ≠ none) (nodes : List Node)
    (h : Emitted k es s) :
    Ends (nodes.foldlM (emitNode k) s) fun s' => Emitted k es s'
      ∧ (∀ id ∈ s.t.ids, id ∈ s'.t.ids)
      ∧ ∀ n ∈ nodes, k.packets.lookup n.ip ≠ none → n.ip ∈ s'.t.ids := by
  induction nodes generalizing s with
  | nil => exact ends_pure ⟨h, fun _ hid => hid, nofun⟩
  | cons n nodes ih =>
    rw [List.foldlM_cons]
    have hone : Ends (emitNode k s n) fun s' => Emitted k es s' ∧ Grows s s'
        ∧ (k.packets.lookup n.ip ≠ none → n.ip ∈ s'.t.ids) := by
      unfold emitNode
      by_cases hn : k.packets.lookup n.ip = none
      · rw [if_pos hn]
        exact ends_ok ⟨h, Grows.refl s, fun hne => absurd hn hne⟩
      · rw [if_neg hn]
        refine (addNode_spec h.indexed hn (hnodes _ hn)).bind ?_
        rintro ⟨i, s'⟩ ⟨hi, hg, j, hj, -⟩
        exact ends_ok ⟨written_grows h hi hg, hg, fun _ => List.mem_of_getElem? hj⟩
    refine hone.bind fun s' ⟨hs', hg, hmem⟩ => ?_
    obtain ⟨s'', heq, hs'', hold, hnew⟩ := ih hs'
    refine ⟨s'', heq, hs'', fun id hid => hold id (hg.mem hid), fun m hm hk => ?_⟩
    rcases List.mem_cons.mp hm with rfl | hm
    · exact hold _ (hmem hk)
    · exact hnew m hm hk

end RawTopo

/-! ## The whole topology -/

/-- The unhidden edges both of whose endpoints are among the ids. -/
def keptEdges (raw : RawSnapshot) (hidden : KeyedMap String Bool) (ids : List String) : List Edge :=
  raw.edges.filter fun e => hidden.lookup e.protocol.name ≠ some true ∧ e.fromID ∈ ids ∧ e.toID ∈ ids

namespace RawTopology

/-- The endpoints an edge's indices read back as. -/
def ends (t : RawTopology) : List (Option String × Option String) :=
  (t.edgeA.zip t.edgeB).map fun i => (t.ids[i.1.toNat]?, t.ids[i.2.toNat]?)

/-- The protocol names the edges' indices read back as. -/
def protoNames (t : RawTopology) : List (Option String) :=
  t.edgeProto.map fun i => (t.protos[i.toNat]?).map Protocol.name

/-- The arrays fit together, and no index points outside. -/
structure WellFormed (t : RawTopology) : Prop where
  nodup : t.ids.Nodup
  tiers : t.tiers.length = t.ids.length
  flags : t.flags.length = t.ids.length
  edgeB : t.edgeB.length = t.edgeA.length
  edgeProto : t.edgeProto.length = t.edgeA.length
  index_lt : ∀ i ∈ t.edgeA ++ t.edgeB, i.toNat < t.ids.length
  proto_lt : ∀ i ∈ t.edgeProto, i.toNat < t.protos.length

end RawTopology

open RawTopology

/-- What a topology is of the snapshot it was built from. -/
structure RawTopology.Of (t : RawTopology) (raw : RawSnapshot) (hidden : KeyedMap String Bool)
    (maxNodes : Int) : Prop where
  wellFormed : t.WellFormed
  atMost : (t.ids.length : Int) ≤ maxNodes
  known : ∀ id ∈ t.ids, id ∈ raw.nodes.map Node.ip
  protos : ((keptEdges raw hidden t.ids).map fun e => e.protocol.name).dedup.length ≤ 255 →
    t.protoNames = (keptEdges raw hidden t.ids).map fun e => some e.protocol.name
  all : hidden.entries = [] → (raw.nodes.length : Int) ≤ maxNodes →
    ∀ n ∈ raw.nodes, n.ip ∈ t.ids
  /-- Below the cap no unhidden edge between known nodes is dropped. -/
  uncut : (raw.nodes.length : Int) ≤ maxNodes → ∀ e ∈ raw.edges,
    hidden.lookup e.protocol.name ≠ some true → e.fromID ∈ raw.nodes.map Node.ip →
    e.toID ∈ raw.nodes.map Node.ip → e.fromID ∈ t.ids ∧ e.toID ∈ t.ids

/-- The edges read back as the kept edges of the snapshot, in order. -/
def RawTopology.ReadsBack (t : RawTopology) (raw : RawSnapshot) (hidden : KeyedMap String Bool) :
    Prop :=
  t.ends = (keptEdges raw hidden t.ids).map fun e => (some e.fromID, some e.toID)

namespace RawTopo

theorem forall₂_mem_right {α β : Type} {R : α → β → Prop} {l : List α} {m : List β}
    (h : List.Forall₂ R l m) {b : β} (hb : b ∈ m) : ∃ a ∈ l, R a b := by
  induction h with
  | nil => cases hb
  | cons hab _ ih =>
    rcases List.mem_cons.mp hb with rfl | hb
    · exact ⟨_, List.mem_cons_self, hab⟩
    · obtain ⟨a, ha, hr⟩ := ih hb
      exact ⟨a, List.mem_cons_of_mem _ ha, hr⟩

variable {F : Type} {k : Capped F} {s : Emit} {es : List Edge}

theorem Emitted.wellFormed (h : Emitted k es s) : s.t.WellFormed where
  nodup := h.indexed.nodup
  tiers := h.indexed.tiers
  flags := h.indexed.flags
  edgeB := by rw [← h.linked.edgeB.length_eq, ← h.linked.edgeA.length_eq]
  edgeProto := by rw [← h.linked.edgeProto.length_eq, ← h.linked.edgeA.length_eq]
  index_lt i hi := by
    rcases List.mem_append.mp hi with hi | hi
    · obtain ⟨e, -, hat⟩ := forall₂_mem_right h.linked.edgeA hi
      exact hat.lt
    · obtain ⟨e, -, hat⟩ := forall₂_mem_right h.linked.edgeB hi
      exact hat.lt
  proto_lt i hi := by
    obtain ⟨e, -, hat⟩ := forall₂_mem_right h.linked.edgeProto hi
    exact hat.lt

theorem Emitted.ends (h : Emitted k es s) (hlen : s.t.ids.length ≤ 2 ^ 32) :
    s.t.ends = es.map fun e => (some e.fromID, some e.toID) := by
  have hzip : ∀ {es : List Edge} {as bs : List UInt32},
      List.Forall₂ (fun (e : Edge) i => At s.t.ids e.fromID i) es as →
      List.Forall₂ (fun (e : Edge) i => At s.t.ids e.toID i) es bs →
      ((as.zip bs).map fun i => (s.t.ids[i.1.toNat]?, s.t.ids[i.2.toNat]?))
        = es.map fun e => (some e.fromID, some e.toID) := by
    intro es as bs ha hb
    induction ha generalizing bs with
    | nil => rfl
    | cons hae _ ih =>
      cases hb with
      | cons hbe hbs =>
        rw [List.zip_cons_cons, List.map_cons, List.map_cons, ih hbs, hae.get hlen, hbe.get hlen]
  exact hzip h.linked.edgeA h.linked.edgeB

/-- The table names every protocol unless there are more than it holds. -/
theorem Emitted.protoNames (h : Emitted k es s)
    (hfew : (es.map fun e => e.protocol.name).dedup.length ≤ 255) :
    s.t.protoNames = es.map fun e => some e.protocol.name := by
  have hnamed : List.Forall₂ (fun (e : Edge) (i : UInt8) =>
      (s.t.protos[i.toNat]?).map Protocol.name = some e.protocol.name) es s.t.edgeProto := by
    refine (List.forall₂_iff_get.mpr ⟨h.linked.edgeProto.length_eq, fun n hn hn' => ?_⟩)
    rcases (List.forall₂_iff_get.mp h.linked.edgeProto).2 n hn hn' with hat | ⟨hfull, hnew, -⟩
    · exact hat
    · -- a name beyond a full table is one too many
      exfalso
      have hsub : ((es.get ⟨n, hn⟩).protocol.name :: s.t.protos.map Protocol.name)
          ⊆ (es.map fun e => e.protocol.name).dedup := by
        intro name hname
        rw [List.mem_dedup, List.mem_map]
        rcases List.mem_cons.mp hname with rfl | hname
        · exact ⟨_, List.get_mem .., rfl⟩
        · obtain ⟨p, hp, rfl⟩ := List.mem_map.mp hname
          exact h.linked.protos p hp
      have hle := (List.Nodup.subperm (List.nodup_cons.mpr ⟨hnew, h.tabled.nodup⟩) hsub).length_le
      rw [List.length_cons, List.length_map, hfull] at hle
      omega
  have hmap : ∀ {es : List Edge} {is : List UInt8}, List.Forall₂ (fun (e : Edge) (i : UInt8) =>
      (s.t.protos[i.toNat]?).map Protocol.name = some e.protocol.name) es is →
      (is.map fun i => (s.t.protos[i.toNat]?).map Protocol.name)
        = es.map fun e => some e.protocol.name := by
    intro es is hall
    induction hall with
    | nil => rfl
    | cons hei _ ih => rw [List.map_cons, List.map_cons, ih, hei]
  exact hmap hnamed

/-- Keys among the listed ids are no more than these. -/
theorem length_le_of_keys {m : KeyedMap String Nat} {ids : List String}
    (h : ∀ id, m.lookup id ≠ none → id ∈ ids) : m.entries.length ≤ ids.length := by
  have hsub : m.keys ⊆ ids := fun id hid => by
    obtain ⟨x, hx⟩ := (KeyedMap.mem_keys_iff m id).mp hid
    exact h id (by rw [hx]; exact Option.some_ne_none x)
  have hlen : m.keys.length = m.entries.length := List.length_map _
  rw [← hlen]
  exact (List.Nodup.subperm m.nodupKeys hsub).length_le

end RawTopo

/-- A cap of zero or less is the default one. -/
def rawCap (maxNodes : Int) : Int := if maxNodes ≤ 0 then defaultRawMaxNodes else maxNodes

/-- **A build never fails**, and its arrays fit together and hold what they should. -/
theorem buildRawTopology_spec (F : Type) [FloatMath F] (go : Runtime) (raw : RawSnapshot)
    (hidden : KeyedMap String Bool) (maxNodes : Int) :
    Ends (buildRawTopology F go raw hidden maxNodes) fun t => t.Of raw hidden (rawCap maxNodes)
      ∧ (t.ids.length ≤ 2 ^ 32 → t.ReadsBack raw hidden) := by
  have hcap : 0 ≤ rawCap maxNodes := by
    unfold rawCap defaultRawMaxNodes
    split <;> omega
  unfold buildRawTopology
  rw [show (if maxNodes ≤ 0 then defaultRawMaxNodes else maxNodes) = rawCap maxNodes from rfl]
  dsimp only
  obtain ⟨hedges, hkeys⟩ := see_foldl (nodeByID raw.nodes) hidden raw.edges {}
  generalize raw.edges.foldl (see (nodeByID raw.nodes) hidden) {} = v at hedges hkeys ⊢
  rw [List.nil_append] at hedges
  generalize hcand : (if hidden.entries = [] then raw.nodes.foldl seed v.packetsByNode
    else v.packetsByNode) = candidates
  -- the candidates are the endpoints, and every node when nothing is hidden
  have hends : ∀ e ∈ v.edges, candidates.lookup e.fromID ≠ none ∧ candidates.lookup e.toID ≠ none := by
    intro e he
    have hv : ∀ id, id = e.fromID ∨ id = e.toID → v.packetsByNode.lookup id ≠ none :=
      fun id hid => (hkeys id).mpr (Or.inr ⟨e, hedges ▸ he, hid⟩)
    rw [← hcand]
    split
    · exact ⟨(seed_foldl _ _ _).mpr (Or.inl (hv _ (Or.inl rfl))),
        (seed_foldl _ _ _).mpr (Or.inl (hv _ (Or.inr rfl)))⟩
    · exact ⟨hv _ (Or.inl rfl), hv _ (Or.inr rfl)⟩
  have hknown : ∀ id, candidates.lookup id ≠ none → id ∈ raw.nodes.map Node.ip := by
    intro id hid
    have hv : v.packetsByNode.lookup id ≠ none → id ∈ raw.nodes.map Node.ip := fun h => by
      rcases (hkeys id).mp h with h | ⟨e, he, hide⟩
      · exact absurd rfl h
      · rw [List.mem_filter, shows, decide_eq_true_eq] at he
        rcases hide with rfl | rfl
        · exact (nodeByID_isSome _ _).mp he.2.2.1
        · exact (nodeByID_isSome _ _).mp he.2.2.2
    rw [← hcand] at hid
    split at hid
    · exact ((seed_foldl _ _ _).mp hid).elim hv fun h => h
    · exact hv hid
  have hall : hidden.entries = [] → ∀ n ∈ raw.nodes, candidates.lookup n.ip ≠ none := by
    intro hh n hn
    rw [← hcand, if_pos hh]
    exact (seed_foldl _ _ _).mpr (Or.inr (List.mem_map_of_mem hn))
  have hfew : (raw.nodes.length : Int) ≤ rawCap maxNodes →
      candidates.entries.length ≤ (rawCap maxNodes).toNat := by
    intro hn
    have := length_le_of_keys hknown
    rw [List.length_map] at this
    omega
  obtain ⟨hlen, hsub, hfits⟩ := cap_spec go (rawCap maxNodes).toNat candidates
  generalize hpackets : cap go (rawCap maxNodes).toNat candidates = packets at hlen hsub hfits ⊢
  generalize hk : (Capped.mk (nodeByID raw.nodes) packets _ : Capped F) = k
  have hkp : k.packets = packets := by rw [← hk]
  have hkn : k.nodes = nodeByID raw.nodes := by rw [← hk]
  have hnodes : ∀ id, k.packets.lookup id ≠ none → k.nodes.lookup id ≠ none := by
    intro id hid
    rw [hkp] at hid
    rw [hkn]
    exact (nodeByID_isSome _ _).mpr (hknown id (hsub id hid))
  have hstart : Emitted k [] { t := { totalPackets := v.total } } :=
    { indexed := ⟨List.nodup_nil, nofun, rfl, rfl, nofun, nofun⟩
      tabled := ⟨Nat.zero_le _, List.nodup_nil, nofun, nofun⟩
      linked := ⟨List.Forall₂.nil, List.Forall₂.nil, List.Forall₂.nil, nofun⟩ }
  refine (emitEdges_spec hnodes v.edges hstart).bind fun s₁ hs₁ => ?_
  rw [List.nil_append] at hs₁
  refine (emitNodes_spec hnodes raw.nodes hs₁).bind fun s ⟨hs, _, hwritten⟩ => ends_pure ?_
  have hids : ∀ id, id ∈ s.t.ids ↔ packets.lookup id ≠ none := by
    intro id
    rw [← hkp]
    refine ⟨hs.indexed.kept id, fun hid => ?_⟩
    obtain ⟨n, hn, rfl⟩ := List.mem_map.mp (hknown id (hsub id (hkp ▸ hid)))
    exact hwritten n hn hid
  have hkept : v.edges.filter (keeps k) = keptEdges raw hidden s.t.ids := by
    unfold keptEdges
    rw [hedges, List.filter_filter]
    refine List.filter_congr fun e _ => ?_
    simp only [keeps, shows, Bool.decide_and, ← hkp, hids]
    rw [Bool.eq_iff_iff]
    simp only [Bool.and_eq_true, decide_eq_true_eq]
    have hnode : ∀ id, k.packets.lookup id ≠ none → (nodeByID raw.nodes).lookup id ≠ none :=
      fun id hid => hkn ▸ hnodes id hid
    exact ⟨fun ⟨⟨ha, hb⟩, hh, _⟩ => ⟨hh, ha, hb⟩,
      fun ⟨hh, ha, hb⟩ => ⟨⟨ha, hb⟩, hh, hnode _ ha, hnode _ hb⟩⟩
  rw [hkept] at hs
  refine ⟨?_, hs.ends⟩
  exact
    { wellFormed := hs.wellFormed
      atMost := by
        have hkeys : s.t.ids.length ≤ packets.keys.length := by
          refine (List.Nodup.subperm hs.indexed.nodup fun id hid => ?_).length_le
          obtain ⟨x, hx⟩ := Option.ne_none_iff_exists'.mp ((hids id).mp hid)
          exact (KeyedMap.mem_keys_iff packets id).mpr ⟨x, hx⟩
        have : packets.keys.length = packets.entries.length := List.length_map _
        omega
      known := fun id hid => hknown id (hsub id ((hids id).mp hid))
      protos := hs.protoNames
      all := fun hh hn n hmem => by
        rw [hids, hfits (hfew hn)]
        exact hall hh n hmem
      uncut := fun hn e he hh hfrom hto => by
        have hv : e ∈ v.edges := by
          rw [hedges, List.mem_filter, shows, decide_eq_true_eq]
          exact ⟨he, hh, (nodeByID_isSome _ _).mpr hfrom, (nodeByID_isSome _ _).mpr hto⟩
        rw [hids, hids, hfits (hfew hn)]
        exact hends e hv }

/-- **A raw topology is well formed and complete**, and its edges read back while indices last. -/
theorem buildRawTopology_of (F : Type) [FloatMath F] (go : Runtime) (raw : RawSnapshot)
    (hidden : KeyedMap String Bool) {maxNodes : Int} (hmax : 1 ≤ maxNodes) :
    Ends (buildRawTopology F go raw hidden maxNodes) fun t => t.Of raw hidden maxNodes
      ∧ (t.ids.length ≤ 2 ^ 32 → t.ReadsBack raw hidden) := by
  have hcap : rawCap maxNodes = maxNodes := if_neg (by omega)
  have h := buildRawTopology_spec F go raw hidden maxNodes
  rwa [hcap] at h

/-- Two nodes and the edge between them. -/
def rawPair : RawSnapshot where
  nodes := [LayoutEngine.quiet "a", LayoutEngine.quiet "b"]
  edges := [{
    id := "a<->b"
    fromID := "a"
    toID := "b"
    protocol := { name := "TCP" }
    packetCount := 1
    byteCount := 1
    lastSeen := 0 }]

theorem rawPair_of :
    Ends (buildRawTopology Int .stable rawPair ∅ 1) fun t => t.Of rawPair ∅ 1
      ∧ (t.ids.length ≤ 2 ^ 32 → t.ReadsBack rawPair ∅) :=
  buildRawTopology_of Int .stable rawPair ∅ (by decide)

/-! ## Where the indices wrap around -/

def numbered (i : Nat) : String := String.ofList (List.replicate i 'a')

theorem numbered_injective : Function.Injective numbered := by
  intro i j hij
  have hlen := congrArg String.length hij
  simpa [numbered] using hlen

/-- So many nodes, each linked to itself. -/
def loops (n : Nat) : RawSnapshot where
  nodes := (List.range n).map fun i => LayoutEngine.quiet (numbered i)
  edges := (List.range n).map fun i =>
    { id := numbered i ++ "<->" ++ numbered i
      fromID := numbered i
      toID := numbered i
      protocol := { name := "TCP" }
      packetCount := 1
      byteCount := 1
      lastSeen := 0 }

theorem loops_nodup (n : Nat) : ((loops n).nodes.map Node.ip).Nodup := by
  unfold loops
  rw [List.map_map]
  exact List.Nodup.map numbered_injective List.nodup_range

theorem length_le_of_nodup {l : List UInt32} (h : l.Nodup) : l.length ≤ 2 ^ 32 := by
  have hnat : (l.map UInt32.toNat).Nodup := h.map fun a b hab => UInt32.toNat_inj.mp hab
  have hsub : l.map UInt32.toNat ⊆ List.range (2 ^ 32) := fun i hi => by
    obtain ⟨a, -, rfl⟩ := List.mem_map.mp hi
    exact List.mem_range.mpr a.toNat_lt
  have hle := (hnat.subperm hsub).length_le
  rwa [List.length_map, List.length_range] at hle

/-- More nodes than there are indices cannot all be read back. -/
theorem loops_wrap {n : Nat} (hn : 2 ^ 32 < n) :
    ¬ Ends (buildRawTopology Int .stable (loops n) ∅ n) fun t => t.ReadsBack (loops n) ∅ := by
  rintro ⟨t, ht, hread⟩
  obtain ⟨t', ht', hof, -⟩ := buildRawTopology_spec Int .stable (loops n) ∅ n
  cases ht.symm.trans ht'
  have hcap : rawCap n = n := if_neg (by omega)
  have hnodes : (loops n).nodes.length = n := by
    unfold loops
    rw [List.length_map, List.length_range]
  have hall : ∀ i ∈ List.range n, numbered i ∈ t.ids := fun i hi => by
    refine hof.all rfl (by rw [hcap, hnodes]) (LayoutEngine.quiet (numbered i)) ?_
    exact List.mem_map_of_mem hi
  have hkept : keptEdges (loops n) ∅ t.ids = (loops n).edges := by
    refine List.filter_eq_self.mpr fun e he => ?_
    obtain ⟨i, hi, rfl⟩ := List.mem_map.mp he
    exact decide_eq_true ⟨nofun, hall i hi, hall i hi⟩
  unfold RawTopology.ReadsBack at hread
  rw [hkept] at hread
  -- the sources are distinct, so their indices are
  have hsources : (t.ends.map Prod.fst).Nodup := by
    rw [hread, List.map_map]
    unfold loops
    rw [List.map_map]
    exact List.Nodup.map (fun i j hij => numbered_injective (Option.some.inj hij)) List.nodup_range
  have hindices : ((t.edgeA.zip t.edgeB).map Prod.fst).Nodup := by
    unfold RawTopology.ends at hsources
    rw [List.map_map] at hsources
    exact List.Nodup.of_map (fun i : UInt32 => t.ids[i.toNat]?) (by rw [List.map_map]; exact hsources)
  have hlen := length_le_of_nodup hindices
  have hcount := congrArg List.length hread
  unfold RawTopology.ends loops at hcount
  rw [List.length_map, List.length_map, List.length_map, List.length_range] at hcount
  rw [List.length_map] at hlen
  omega

/-- **The read-back has a limit**: distinct nodes, one more than a `uint32` tells apart. -/
theorem loops_not_readsBack : ((loops (2 ^ 32 + 1)).nodes.map Node.ip).Nodup
    ∧ ¬ Ends (buildRawTopology Int .stable (loops (2 ^ 32 + 1)) ∅ ((2 ^ 32 + 1 : Nat) : Int))
      fun t => t.ReadsBack (loops (2 ^ 32 + 1)) ∅ :=
  ⟨loops_nodup _, loops_wrap (by omega)⟩

end Etherchimp
