import Etherchimp.Stream.Manager
import Mathlib.Data.List.Perm.Basic

/-!
# The stream table is an LRU

The map and the linked list are kept in step by three facts that hold together:
every stream knows an element of the list holding its own id, every element's id
has a stream that knows that element, and the ids stand in the list by how long
ago their last packet was filed. Age decides everything else: ages of different
entries differ, so the list repeats no id, and the front is the oldest.
-/

namespace Etherchimp

/-- How many calls ago the last packet was filed under `id`. -/
def callsSince (ops : List StreamOp) (id : String) : Nat :=
  ops.reverse.findIdx fun op => op.filesUnder = some id

theorem callsSince_concat (ops : List StreamOp) (op : StreamOp) (id : String) :
    callsSince (ops ++ [op]) id = if op.filesUnder = some id then 0 else callsSince ops id + 1 := by
  unfold callsSince
  rw [List.reverse_append, List.reverse_singleton, List.singleton_append, List.findIdx_cons]
  by_cases h : op.filesUnder = some id <;> simp [h]

theorem callsSince_of_ne {ops : List StreamOp} {op : StreamOp} {id : String}
    (h : op.filesUnder ≠ some id) : callsSince (ops ++ [op]) id = callsSince ops id + 1 := by
  rw [callsSince_concat, if_neg h]

theorem callsSince_of_eq {ops : List StreamOp} {op : StreamOp} {id : String}
    (h : op.filesUnder = some id) : callsSince (ops ++ [op]) id = 0 := by
  rw [callsSince_concat, if_pos h]

/-! ## What filing a packet leaves alone -/

namespace Stream

variable (s : Stream) (now : Int) (pkt : PacketInfo)

/-- `reclassify` writes the protocol and the summary only. -/
theorem reclassify_eq (b : Bool) : ∃ protocol summary,
    s.reclassify pkt b = { s with protocol := protocol, summary := summary } := by
  unfold reclassify
  by_cases h : Stream.detectProtocol pkt s ≠ s.protocol ∨ b ∨ s.summary = []
  · exact ⟨_, _, if_pos h⟩
  · exact ⟨s.protocol, s.summary, if_neg h⟩

/-- Everything a packet can do to its stream, up to the protocol and the summary. -/
theorem add_eq : ∃ protocol summary,
    s.add now pkt = { s.accumulate now pkt with protocol := protocol, summary := summary } :=
  reclassify_eq (s.accumulate now pkt) pkt (s.firstBytes pkt)

@[simp] theorem add_orderElem : (s.add now pkt).orderElem = s.orderElem := by
  obtain ⟨protocol, summary, h⟩ := add_eq s now pkt
  rw [h]
  rfl

end Stream

namespace StreamManager

/-! ## What one call does -/

theorem addPacket_of_noPorts {pkt : PacketInfo} (h : hasNoPorts pkt = true) (m : StreamManager)
    (now : Int) : m.addPacket now pkt = m := if_pos h

theorem addPacket_of_some {m : StreamManager} {pkt : PacketInfo} (h : hasNoPorts pkt = false)
    {s : Stream} (hs : m.streams.lookup (streamIDOf pkt) = some s) (now : Int) :
    m.addPacket now pkt
      = { m with
          order := m.order.moveToBack s.orderElem
          streams := m.streams.insert (streamIDOf pkt) (s.add now pkt) } := by
  unfold addPacket openStream
  rw [if_neg (by simp [h]), hs]

theorem addPacket_of_none {m : StreamManager} {pkt : PacketInfo} (h : hasNoPorts pkt = false)
    (hs : m.streams.lookup (streamIDOf pkt) = none) (now : Int) :
    m.addPacket now pkt
      = { m.makeRoom with
          order := m.makeRoom.order.pushBack (streamIDOf pkt)
          streams := m.makeRoom.streams.insert (streamIDOf pkt)
            ((newStream now pkt m.makeRoom.order.next).add now pkt) } := by
  unfold addPacket openStream
  rw [if_neg (by simp [h]), hs]

theorem filesUnder_of_ports {pkt : PacketInfo} (h : hasNoPorts pkt = false) (now : Int) :
    (StreamOp.addPacket now pkt).filesUnder = some (streamIDOf pkt) :=
  if_neg (by simp [h])

theorem filesUnder_of_noPorts {pkt : PacketInfo} (h : hasNoPorts pkt = true) (now : Int) :
    (StreamOp.addPacket now pkt).filesUnder = none := if_pos h

@[simp] theorem makeRoom_maxStreams (m : StreamManager) :
    m.makeRoom.maxStreams = m.maxStreams := by
  unfold makeRoom evictOldestStream
  split
  · split <;> rfl
  · rfl

theorem step_maxStreams (m : StreamManager) (op : StreamOp) :
    (m.step op).maxStreams = m.maxStreams := by
  cases op with
  | clear => rfl
  | addPacket now pkt =>
    show (m.addPacket now pkt).maxStreams = _
    cases hp : hasNoPorts pkt with
    | true => rw [addPacket_of_noPorts hp]
    | false =>
      cases hs : m.streams.lookup (streamIDOf pkt) with
      | some s => rw [addPacket_of_some hp hs]
      | none => rw [addPacket_of_none hp hs]; exact makeRoom_maxStreams m

theorem newStreamManager_pos (maxStreams : Int) : 1 ≤ (newStreamManager maxStreams).maxStreams := by
  show 1 ≤ if maxStreams ≤ 0 then 1000 else maxStreams.toNat
  split <;> omega

theorem run_maxStreams (maxStreams : Int) (ops : List StreamOp) :
    (run maxStreams ops).maxStreams = (newStreamManager maxStreams).maxStreams :=
  Run.invariant (P := fun m => m.maxStreams = (newStreamManager maxStreams).maxStreams) rfl
    (fun m op h _ => (step_maxStreams m op).trans h) (Run.guarded_true _ ops)

/-! ## The invariant -/

/-- The map and the list agree, and the list is ordered by the age of the last packet. -/
structure Aligned (ops : List StreamOp) (m : StreamManager) : Prop where
  linked : ∀ id s, m.streams.lookup id = some s → (s.orderElem, id) ∈ m.order.elems
  held : ∀ e ∈ m.order.elems, ∃ s, m.streams.lookup e.2 = some s ∧ s.orderElem = e.1
  ordered : m.order.elems.Pairwise fun a b => callsSince ops b.2 < callsSince ops a.2
  filed : ∀ e ∈ m.order.elems, callsSince ops e.2 < ops.length

/-- The list holds the keys of the map. -/
theorem Aligned.mem_values {ops : List StreamOp} {m : StreamManager} (h : Aligned ops m)
    (id : String) : id ∈ m.order.values ↔ id ∈ m.streams := by
  rw [← AList.lookup_isSome, Option.isSome_iff_exists]
  constructor
  · intro hm
    obtain ⟨e, he, rfl⟩ := List.mem_map.mp hm
    obtain ⟨s, hs, _⟩ := h.held e he
    exact ⟨s, hs⟩
  · rintro ⟨s, hs⟩
    exact List.mem_map_of_mem (f := Prod.snd) (h.linked id s hs)

theorem Aligned.values_pairwise {ops : List StreamOp} {m : StreamManager} (h : Aligned ops m) :
    m.order.values.Pairwise fun a b => callsSince ops b < callsSince ops a :=
  List.pairwise_map.mpr h.ordered

theorem Aligned.values_nodup {ops : List StreamOp} {m : StreamManager} (h : Aligned ops m) :
    m.order.values.Nodup := by
  refine h.values_pairwise.imp fun {a b} hlt => ?_
  rintro rfl
  exact Nat.lt_irrefl _ hlt

/-- As many streams as elements. -/
theorem Aligned.length {ops : List StreamOp} {m : StreamManager} (h : Aligned ops m) :
    m.streams.keys.length = m.order.elems.length := by
  have hperm : m.order.values.Perm m.streams.keys :=
    (List.perm_ext_iff_of_nodup h.values_nodup m.streams.keys_nodup).mpr fun id => by
      rw [h.mem_values, AList.mem_keys]
  rw [← hperm.length_eq]
  exact List.length_map _

/-! ### Eviction -/

/-- An eviction takes the front of the list and its stream. -/
theorem evictOldestStream_eq {m : StreamManager} {e : Nat × String} {rest : List (Nat × String)}
    (he : m.order.elems = e :: rest) :
    m.evictOldestStream
      = { m with order := m.order.remove e.1, streams := m.streams.erase e.2 } := by
  unfold evictOldestStream LinkedList.front
  rw [he]
  rfl

theorem Aligned.evict {ops : List StreamOp} {m : StreamManager} (h : Aligned ops m)
    {e : Nat × String} {rest : List (Nat × String)} (he : m.order.elems = e :: rest) :
    Aligned ops m.evictOldestStream := by
  have helems : (m.order.remove e.1).elems = rest := m.order.elems_remove_front he
  have hord := h.ordered
  rw [he, List.pairwise_cons] at hord
  have hsub : ∀ x ∈ rest, x ∈ m.order.elems := fun x hx => he ▸ List.mem_cons_of_mem e hx
  rw [evictOldestStream_eq he]
  constructor
  · intro id s hs
    rw [KeyedMap.lookup_erase_eq] at hs
    by_cases hid : id = e.2
    · rw [if_pos hid] at hs
      exact absurd hs (by simp)
    · rw [if_neg hid] at hs
      have hm := h.linked id s hs
      rw [he, List.mem_cons] at hm
      rcases hm with hm | hm
      · exact absurd (congrArg Prod.snd hm) hid
      · exact helems ▸ hm
  · intro x hx
    have hx : x ∈ rest := helems ▸ hx
    obtain ⟨s, hs, hp⟩ := h.held x (hsub x hx)
    -- the front is strictly older than everything behind it, so it is another id
    have hne : x.2 ≠ e.2 := by
      intro heq
      have := hord.1 x hx
      rw [heq] at this
      exact Nat.lt_irrefl _ this
    exact ⟨s, by rw [KeyedMap.lookup_erase_eq, if_neg hne]; exact hs, hp⟩
  · exact helems ▸ hord.2
  · intro x hx
    exact h.filed x (hsub x (helems ▸ hx))

/-- After `makeRoom` there is room. -/
theorem Aligned.makeRoom {ops : List StreamOp} {m : StreamManager} (h : Aligned ops m)
    (hb : m.order.elems.length ≤ m.maxStreams) (hmax : 1 ≤ m.maxStreams) :
    Aligned ops m.makeRoom ∧ m.makeRoom.order.elems.length < m.maxStreams := by
  unfold StreamManager.makeRoom
  rw [h.length]
  by_cases hfull : m.maxStreams ≤ m.order.elems.length
  · rw [if_pos hfull]
    cases he : m.order.elems with
    | nil =>
      rw [he, List.length_nil] at hfull
      omega
    | cons e rest =>
      refine ⟨h.evict he, ?_⟩
      rw [evictOldestStream_eq he, m.order.elems_remove_front he]
      rw [he, List.length_cons] at hb
      omega
  · rw [if_neg hfull]
    exact ⟨h, by omega⟩

/-! ### One call -/

/-- Every entry ages when a call files nothing. -/
theorem Aligned.age {ops : List StreamOp} {m : StreamManager} (h : Aligned ops m)
    {op : StreamOp} (hop : op.filesUnder = none) : Aligned (ops ++ [op]) m := by
  have hage : ∀ id, callsSince (ops ++ [op]) id = callsSince ops id + 1 := fun id =>
    callsSince_of_ne (by simp [hop])
  refine ⟨h.linked, h.held, h.ordered.imp fun {a b} hab => ?_, fun e he => ?_⟩
  · rw [hage, hage]
    omega
  · have := h.filed e he
    rw [hage, List.length_append, List.length_singleton]
    omega

/--
Putting `(p, id)` behind elements whose ids all differ from it: they all age by
one call, it is fresh.
-/
theorem ordered_back {ops : List StreamOp} {op : StreamOp} {p : Nat} {id : String}
    (hop : op.filesUnder = some id) {l : List (Nat × String)} (hne : ∀ e ∈ l, e.2 ≠ id)
    (hord : l.Pairwise fun a b => callsSince ops b.2 < callsSince ops a.2)
    (hfiled : ∀ e ∈ l, callsSince ops e.2 < ops.length) :
    ((l ++ [(p, id)]).Pairwise fun a b =>
        callsSince (ops ++ [op]) b.2 < callsSince (ops ++ [op]) a.2) ∧
      ∀ e ∈ l ++ [(p, id)], callsSince (ops ++ [op]) e.2 < (ops ++ [op]).length := by
  have hfresh : callsSince (ops ++ [op]) id = 0 := callsSince_of_eq hop
  have hage : ∀ e ∈ l, callsSince (ops ++ [op]) e.2 = callsSince ops e.2 + 1 := fun e he =>
    callsSince_of_ne fun heq => hne e he (Option.some.inj (heq.symm.trans hop))
  constructor
  · rw [List.pairwise_append]
    refine ⟨hord.imp_of_mem fun {a b} ha hb hab => ?_, List.pairwise_singleton _ _, ?_⟩
    · rw [hage a ha, hage b hb]
      omega
    · intro a ha b hb
      rw [List.mem_singleton.mp hb, hage a ha, hfresh]
      omega
  · intro e he
    rw [List.length_append, List.length_singleton]
    rcases List.mem_append.mp he with he | he
    · have := hfiled e he
      rw [hage e he]
      omega
    · rw [List.mem_singleton.mp he, hfresh]
      omega

/-- A packet of a live stream moves the stream's own element to the back. -/
theorem Aligned.touch {ops : List StreamOp} {m : StreamManager} (h : Aligned ops m)
    {now : Int} {pkt : PacketInfo} (hp : hasNoPorts pkt = false) {s : Stream}
    (hs : m.streams.lookup (streamIDOf pkt) = some s) :
    Aligned (ops ++ [.addPacket now pkt]) (m.addPacket now pkt) := by
  rw [addPacket_of_some hp hs]
  have helem := h.linked _ s hs
  have helems := m.order.elems_moveToBack helem
  -- the other elements hold other ids, as this id's stream knows one element only
  have hne : ∀ e ∈ m.order.others s.orderElem, e.2 ≠ streamIDOf pkt := by
    intro e he heq
    obtain ⟨he, hptr⟩ := LinkedList.mem_others.mp he
    obtain ⟨s', hs', hp'⟩ := h.held e he
    rw [heq, hs] at hs'
    cases hs'
    exact hptr hp'.symm
  obtain ⟨hord, hfiled⟩ := ordered_back (p := s.orderElem) (filesUnder_of_ports hp now) hne
    (h.ordered.sublist List.filter_sublist) fun e he => h.filed e (LinkedList.mem_others.mp he).1
  constructor
  · intro id t ht
    show (t.orderElem, id) ∈ (m.order.moveToBack s.orderElem).elems
    rw [helems]
    rw [KeyedMap.lookup_insert_eq] at ht
    by_cases hid : id = streamIDOf pkt
    · rw [if_pos hid] at ht
      cases ht
      rw [hid, Stream.add_orderElem]
      exact List.mem_append_right _ (List.mem_singleton_self _)
    · rw [if_neg hid] at ht
      have hm := h.linked id t ht
      refine List.mem_append_left _ (LinkedList.mem_others.mpr ⟨hm, fun heq => hid ?_⟩)
      have hm' : (s.orderElem, id) ∈ m.order.elems := heq ▸ hm
      exact m.order.eq_of_ptr hm' helem
  · intro e he
    rw [helems] at he
    rcases List.mem_append.mp he with he | he
    · obtain ⟨t, ht, hpt⟩ := h.held e (LinkedList.mem_others.mp he).1
      exact ⟨t, by rw [KeyedMap.lookup_insert_eq, if_neg (hne e he)]; exact ht, hpt⟩
    · rw [List.mem_singleton.mp he]
      exact ⟨s.add now pkt, by rw [KeyedMap.lookup_insert_eq, if_pos rfl], by simp⟩
  · exact helems ▸ hord
  · exact helems ▸ hfiled

/-- `makeRoom` only ever takes streams away. -/
theorem lookup_makeRoom_none {m : StreamManager} {id : String}
    (h : m.streams.lookup id = none) : m.makeRoom.streams.lookup id = none := by
  unfold StreamManager.makeRoom evictOldestStream
  split
  · split
    · exact h
    · rename_i front _
      show (m.streams.erase front.2).lookup id = none
      rw [KeyedMap.lookup_erase_eq, h, ite_self]
  · exact h

/-- A packet of no live stream puts a new element at the back. -/
theorem Aligned.create {ops : List StreamOp} {m : StreamManager} (h : Aligned ops m.makeRoom)
    {now : Int} {pkt : PacketInfo} (hp : hasNoPorts pkt = false)
    (hs : m.streams.lookup (streamIDOf pkt) = none) :
    Aligned (ops ++ [.addPacket now pkt]) (m.addPacket now pkt) := by
  rw [addPacket_of_none hp hs]
  have hnone := lookup_makeRoom_none hs
  have hne : ∀ e ∈ m.makeRoom.order.elems, e.2 ≠ streamIDOf pkt := by
    intro e he heq
    obtain ⟨s', hs', _⟩ := h.held e he
    rw [heq, hnone] at hs'
    cases hs'
  obtain ⟨hord, hfiled⟩ := ordered_back (p := m.makeRoom.order.next)
    (filesUnder_of_ports hp now) hne h.ordered h.filed
  constructor
  · intro id t ht
    rw [KeyedMap.lookup_insert_eq] at ht
    by_cases hid : id = streamIDOf pkt
    · rw [if_pos hid] at ht
      cases ht
      rw [hid, Stream.add_orderElem]
      exact List.mem_append_right _ (List.mem_singleton_self _)
    · rw [if_neg hid] at ht
      exact List.mem_append_left _ (h.linked id t ht)
  · intro e he
    rcases List.mem_append.mp he with he | he
    · obtain ⟨t, ht, hpt⟩ := h.held e he
      exact ⟨t, by rw [KeyedMap.lookup_insert_eq, if_neg (hne e he)]; exact ht, hpt⟩
    · rw [List.mem_singleton.mp he]
      refine ⟨_, by rw [KeyedMap.lookup_insert_eq, if_pos rfl], ?_⟩
      rw [Stream.add_orderElem]
      rfl
  · exact hord
  · exact hfiled

/-- Everything that holds of the table after a sequence of calls. -/
structure Kept (ops : List StreamOp) (m : StreamManager) : Prop where
  aligned : Aligned ops m
  bounded : m.order.elems.length ≤ m.maxStreams
  room : 1 ≤ m.maxStreams

theorem Kept.step {ops : List StreamOp} {m : StreamManager} (h : Kept ops m) (op : StreamOp) :
    Kept (ops ++ [op]) (m.step op) := by
  have hroom : 1 ≤ (m.step op).maxStreams := (step_maxStreams m op).symm ▸ h.room
  cases op with
  | clear =>
    refine ⟨⟨fun id s hs => ?_, ?_, List.Pairwise.nil, ?_⟩, Nat.zero_le _, hroom⟩
    · exact absurd hs (by rw [show (m.step .clear).streams = ∅ from rfl, AList.lookup_empty]; simp)
    · exact fun e he => absurd he List.not_mem_nil
    · exact fun e he => absurd he List.not_mem_nil
  | addPacket now pkt =>
    cases hp : hasNoPorts pkt with
    | true =>
      show Kept _ (m.addPacket now pkt)
      rw [addPacket_of_noPorts hp]
      exact ⟨h.aligned.age (filesUnder_of_noPorts hp now), h.bounded, h.room⟩
    | false =>
      cases hs : m.streams.lookup (streamIDOf pkt) with
      | some s =>
        refine ⟨h.aligned.touch hp hs, ?_, hroom⟩
        show (m.addPacket now pkt).order.elems.length ≤ (m.addPacket now pkt).maxStreams
        have helem := h.aligned.linked _ s hs
        rw [addPacket_of_some hp hs, m.order.elems_moveToBack helem, List.length_append,
          List.length_singleton]
        -- the element that moved is no longer among the others
        have hlt : (m.order.others s.orderElem).length < m.order.elems.length :=
          List.length_filter_lt_length_iff_exists.mpr ⟨_, helem, by simp⟩
        exact le_trans hlt h.bounded
      | none =>
        obtain ⟨halign, hlt⟩ := h.aligned.makeRoom h.bounded h.room
        refine ⟨halign.create hp hs, ?_, hroom⟩
        show (m.addPacket now pkt).order.elems.length ≤ (m.addPacket now pkt).maxStreams
        rw [addPacket_of_none hp hs]
        show (m.makeRoom.order.elems ++ [_]).length ≤ m.makeRoom.maxStreams
        rw [List.length_append, List.length_singleton, makeRoom_maxStreams]
        omega

theorem kept_run (maxStreams : Int) (ops : List StreamOp) : Kept ops (run maxStreams ops) := by
  have h0 : Kept [] (newStreamManager maxStreams) := by
    refine ⟨⟨fun id s hs => ?_, ?_, List.Pairwise.nil, ?_⟩, Nat.zero_le _,
      newStreamManager_pos maxStreams⟩
    · exact absurd hs (by
        rw [show (newStreamManager maxStreams).streams = ∅ from rfl, AList.lookup_empty]; simp)
    · exact fun e he => absurd he List.not_mem_nil
    · exact fun e he => absurd he List.not_mem_nil
  exact Run.history_invariant (P := Kept) h0 (fun done m op h _ => h.step op)
    (Run.guarded_true _ ops)

/-- What a packet of no live stream does to a full table. -/
theorem Kept.mem_addPacket_full {ops : List StreamOp} {m : StreamManager} (h : Kept ops m)
    {now : Int} {pkt : PacketInfo} (hp : hasNoPorts pkt = false)
    (hs : m.streams.lookup (streamIDOf pkt) = none) (hfull : m.maxStreams ≤ m.streams.keys.length) :
    ∃ oldest ∈ m.streams,
      (∀ id ∈ m.streams, id ≠ oldest → callsSince ops id < callsSince ops oldest) ∧
      ∀ id, id ∈ (m.addPacket now pkt).streams
        ↔ id = streamIDOf pkt ∨ id ∈ m.streams ∧ id ≠ oldest := by
  have hlen := h.aligned.length
  have hroom := h.room
  cases he : m.order.elems with
  | nil =>
    rw [he, List.length_nil] at hlen
    omega
  | cons e rest =>
    have hord := h.aligned.ordered
    rw [he, List.pairwise_cons] at hord
    refine ⟨e.2, ?_, ?_, ?_⟩
    · exact (h.aligned.mem_values e.2).mp
        (List.mem_map_of_mem (f := Prod.snd) (he ▸ List.mem_cons_self ..))
    · intro id hid hne
      obtain ⟨x, hx, rfl⟩ := List.mem_map.mp ((h.aligned.mem_values id).mpr hid)
      rw [he, List.mem_cons] at hx
      rcases hx with rfl | hx
      · exact absurd rfl hne
      · exact hord.1 x hx
    · intro id
      rw [addPacket_of_none hp hs]
      show id ∈ m.makeRoom.streams.insert _ _ ↔ _
      have hevict : m.makeRoom.streams = m.streams.erase e.2 := by
        unfold StreamManager.makeRoom
        rw [if_pos hfull, evictOldestStream_eq he]
      rw [AList.mem_insert, hevict, AList.mem_erase]
      exact or_congr_right and_comm

end StreamManager

/--
**The stream table is an LRU.** After any calls, the list holds every key of the
map once, ordered by how long ago the key's last packet was filed; each stream's
element is its own; and a packet that needs a new stream in a full table costs
exactly the stream whose last packet is the oldest.
-/
theorem streamTable_lru (maxStreams : Int) (ops : List StreamOp) :
    let m := StreamManager.run maxStreams ops
    m.order.values.Nodup
    ∧ (∀ id, id ∈ m.order.values ↔ id ∈ m.streams)
    ∧ m.order.values.Pairwise (fun a b => callsSince ops b < callsSince ops a)
    ∧ (∀ id ∈ m.order.values, callsSince ops id < ops.length)
    ∧ (∀ id s, m.streams.lookup id = some s → (s.orderElem, id) ∈ m.order.elems)
    ∧ m.streams.keys.length ≤ (if maxStreams ≤ 0 then 1000 else maxStreams.toNat)
    ∧ ∀ now pkt, hasNoPorts pkt = false → m.streams.lookup (streamIDOf pkt) = none →
        m.maxStreams ≤ m.streams.keys.length →
        ∃ oldest ∈ m.streams,
          (∀ id ∈ m.streams, id ≠ oldest → callsSince ops id < callsSince ops oldest) ∧
          ∀ id, id ∈ (m.addPacket now pkt).streams
            ↔ id = streamIDOf pkt ∨ id ∈ m.streams ∧ id ≠ oldest := by
  have h := StreamManager.kept_run maxStreams ops
  refine ⟨h.aligned.values_nodup, h.aligned.mem_values, h.aligned.values_pairwise, ?_,
    h.aligned.linked, ?_, fun now pkt hp hs hfull => h.mem_addPacket_full hp hs hfull⟩
  · intro id hid
    obtain ⟨e, he, rfl⟩ := List.mem_map.mp hid
    exact h.aligned.filed e he
  · have hmax : (StreamManager.run maxStreams ops).maxStreams
        = if maxStreams ≤ 0 then 1000 else maxStreams.toNat :=
      StreamManager.run_maxStreams maxStreams ops
    rw [h.aligned.length, ← hmax]
    exact h.bounded

end Etherchimp
