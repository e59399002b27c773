import Etherchimp.Browser.Page
import Etherchimp.Lib.Coalesce
import Etherchimp.Proof.Replica

/-!
# The ids a page shows

Which ids are on the page does not depend on how the page draws them: a signature only
ever skips an item that is there. `Shown` is the page with the items forgotten, and
`shown_updateGraph` says it simulates the page.

Messages come framed: a delta, a full snapshot, or the chunks of one, of which only the
first removes anything. A complete snapshot leaves the page with exactly the ids it
lists, whatever was there.
-/

namespace Etherchimp

variable {F : Type}

/-! ## Data sets -/

namespace Layer

variable {α : Type} {key sig : α → String}

def ids (l : Layer α) : Set String := {id | ∃ x, l.items.lookup id = some x}

theorem mem_ids (l : Layer α) (id : String) : id ∈ l.ids ↔ ∃ x, l.items.lookup id = some x :=
  Iff.rfl

theorem mem_remove (l : Layer α) (gone : List String) (id : String) :
    id ∈ (l.remove gone).ids ↔ id ∈ l.ids ∧ id ∉ gone := by
  have hl : (l.remove gone).items.lookup id = if id ∈ gone then none else l.items.lookup id :=
    KeyedMap.lookup_eraseAll ..
  rw [mem_ids, hl, mem_ids]
  by_cases hg : id ∈ gone
  · simp [hg]
  · simp [hg]

variable (key sig) in
/-- The items written: incoming ones, among them all that are not on the page. -/
theorem touch_foldl (items : KeyedMap String α) (incoming : List α)
    (s : KeyedMap String String × List α) :
    ∃ written, (incoming.foldl (touch key sig items) s).2 = s.2 ++ written
      ∧ written ⊆ incoming
      ∧ ∀ x ∈ incoming, x ∈ written ∨ ∃ y, items.lookup (key x) = some y := by
  induction incoming generalizing s with
  | nil => exact ⟨[], (List.append_nil _).symm, List.Subset.refl _, fun x hx => (by cases hx)⟩
  | cons x incoming ih =>
    obtain ⟨written, heq, hsub, hall⟩ := ih (touch key sig items s x)
    rw [List.foldl_cons]
    by_cases hskip : s.1.lookup (key x) = some (sig x) ∧ (items.lookup (key x)).isSome
    · have hs : touch key sig items s x = s := if_pos hskip
      rw [hs] at heq ⊢
      refine ⟨written, heq, fun y hy => List.mem_cons_of_mem _ (hsub hy), fun y hy => ?_⟩
      rcases List.mem_cons.mp hy with rfl | hy
      · exact Or.inr (Option.isSome_iff_exists.mp hskip.2)
      · exact hall y hy
    · have hs : touch key sig items s x = (s.1.insert (key x) (sig x), s.2 ++ [x]) := if_neg hskip
      rw [hs] at heq ⊢
      refine ⟨x :: written, ?_, ?_, fun y hy => ?_⟩
      · rw [heq, List.append_assoc, List.singleton_append]
      · intro y hy
        rcases List.mem_cons.mp hy with rfl | hy
        · exact List.mem_cons_self ..
        · exact List.mem_cons_of_mem _ (hsub hy)
      · rcases List.mem_cons.mp hy with rfl | hy
        · exact Or.inl (List.mem_cons_self ..)
        · exact (hall y hy).imp_left (List.mem_cons_of_mem _)

theorem mem_update (l : Layer α) (incoming : List α) (id : String) :
    id ∈ (l.update key sig incoming).ids ↔ id ∈ incoming.map key ∨ id ∈ l.ids := by
  obtain ⟨written, heq, hsub, hall⟩ := touch_foldl key sig l.items incoming (l.lastSig, [])
  have hitems : (l.update key sig incoming).items
      = Delta.upsert key (fun x => x) l.items written := by
    show Delta.upsert key _ l.items (incoming.foldl (touch key sig l.items) (l.lastSig, [])).2 = _
    rw [heq]
    rfl
  rw [mem_ids, hitems, Delta.upsert_exists_iff, ← mem_ids]
  constructor
  · intro h
    exact h.imp_left fun hw => (List.map_subset key hsub) hw
  · intro h
    rcases h with hi | hl
    · obtain ⟨x, hx, rfl⟩ := List.mem_map.mp hi
      exact (hall x hx).imp_left List.mem_map_of_mem
    · exact Or.inr hl

theorem mem_keepOnly (l : Layer α) (keep : List String) (id : String) :
    id ∈ (l.keepOnly keep).ids ↔ id ∈ l.ids ∧ id ∈ keep := by
  unfold keepOnly
  rw [mem_remove, List.mem_filter, KeyedMap.mem_keys_iff, ← mem_ids, decide_eq_true_iff]
  constructor
  · intro ⟨hl, hn⟩
    exact ⟨hl, by_contra fun hk => hn ⟨hl, hk⟩⟩
  · intro ⟨hl, hk⟩
    exact ⟨hl, fun h => h.2 hk⟩

end Layer

/-! ## The page with its items forgotten -/

def ViewDelta.nodeIDs (d : ViewDelta F) : List String := d.nodes.map ViewNode.id

def ViewDelta.edgeIDs (d : ViewDelta F) : List String := d.edges.map ViewEdge.id

def ViewDelta.nodeChange (d : ViewDelta F) : Change String := ⟨d.nodeIDs, d.removedNodes⟩

def ViewDelta.edgeChange (d : ViewDelta F) : Change String := ⟨d.edgeIDs, d.removedEdges⟩

@[ext]
structure Shown where
  nodes : Set String
  edges : Set String
  syncing : Option (List String × List String)

def Page.shown (p : Page F) : Shown := ⟨p.nodes.ids, p.edges.ids, p.fullSyncIds⟩

/-- The ids collected once a message is in. -/
def Shown.collect (s : Shown) (d : ViewDelta F) : Option (List String × List String) :=
  (if d.isFull then (if d.isPartial then some ([], []) else none) else s.syncing).map
    fun acc => (acc.1 ++ d.nodeIDs, acc.2 ++ d.edgeIDs)

/-- What a message does to the ids. -/
def Shown.receive (s : Shown) (d : ViewDelta F) : Shown :=
  if d.fullDone then
    let keep := (s.collect d).getD (d.nodeIDs, d.edgeIDs)
    { nodes := {id | id ∈ d.nodeChange.apply s.nodes ∧ id ∈ keep.1}
      edges := {id | id ∈ d.edgeChange.apply s.edges ∧ id ∈ keep.2}
      syncing := none }
  else
    { nodes := d.nodeChange.apply s.nodes
      edges := d.edgeChange.apply s.edges
      syncing := s.collect d }

/-- **The page shows what the messages say**, however it draws it. -/
theorem shown_updateGraph (look : Look F) (p : Page F) (d : ViewDelta F) :
    (p.updateGraph look d).shown = p.shown.receive d := by
  have hnodes : ∀ id, id ∈ ((p.nodes.remove d.removedNodes).update ViewNode.id look.nodeSig d.nodes).ids
      ↔ id ∈ d.nodeChange.apply p.nodes.ids := by
    intro id
    rw [Layer.mem_update, Layer.mem_remove]
    rfl
  have hedges : ∀ id, id ∈ ((p.edges.remove d.removedEdges).update ViewEdge.id look.edgeSig d.edges).ids
      ↔ id ∈ d.edgeChange.apply p.edges.ids := by
    intro id
    rw [Layer.mem_update, Layer.mem_remove]
    rfl
  unfold Page.updateGraph Shown.receive
  dsimp only
  cases hd : d.fullDone with
  | true =>
    rw [if_pos rfl, if_pos rfl]
    refine Shown.ext (Set.ext fun id => ?_) (Set.ext fun id => ?_) rfl
    · exact (Layer.mem_keepOnly ..).trans (and_congr_left fun _ => hnodes id)
    · exact (Layer.mem_keepOnly ..).trans (and_congr_left fun _ => hedges id)
  | false =>
    rw [if_neg Bool.false_ne_true, if_neg Bool.false_ne_true]
    exact Shown.ext (Set.ext hnodes) (Set.ext hedges) rfl

/-! ## Framing -/

/-- What may be in flight: whole messages, after the rest of a snapshot that is coming in. -/
inductive Framing : Bool → List (ViewDelta F) → Prop
  | done : Framing false []
  | delta {d q} (hfull : d.isFull = false) (hpart : d.isPartial = false) (hdone : d.fullDone = false)
      (rest : Framing false q) : Framing false (d :: q)
  | full {d q} (hfull : d.isFull = true) (hpart : d.isPartial = false) (hdone : d.fullDone = true)
      (rest : Framing false q) : Framing false (d :: q)
  | first {d q} (hfull : d.isFull = true) (hpart : d.isPartial = true) (hdone : d.fullDone = false)
      (rest : Framing true q) : Framing false (d :: q)
  | chunk {d q} (hfull : d.isFull = false) (hpart : d.isPartial = true) (hdone : d.fullDone = false)
      (hnodes : d.removedNodes = []) (hedges : d.removedEdges = []) (rest : Framing true q) :
      Framing true (d :: q)
  | last {d q} (hfull : d.isFull = false) (hpart : d.isPartial = true) (hdone : d.fullDone = true)
      (hnodes : d.removedNodes = []) (hedges : d.removedEdges = []) (rest : Framing false q) :
      Framing true (d :: q)

theorem Framing.append {b : Bool} {q q' : List (ViewDelta F)} (h : Framing b q)
    (h' : Framing false q') : Framing b (q ++ q') := by
  induction h with
  | done => exact h'
  | delta hfull hpart hdone _ ih => exact .delta hfull hpart hdone ih
  | full hfull hpart hdone _ ih => exact .full hfull hpart hdone ih
  | first hfull hpart hdone _ ih => exact .first hfull hpart hdone ih
  | chunk hfull hpart hdone hnodes hedges _ ih => exact .chunk hfull hpart hdone hnodes hedges ih
  | last hfull hpart hdone hnodes hedges _ ih => exact .last hfull hpart hdone hnodes hedges ih

/-- The chunks of a full snapshot after the first, up to the one that completes it. -/
inductive ChunkRun : List (ViewDelta F) → Prop
  | last {d} (hfull : d.isFull = false) (hpart : d.isPartial = true) (hdone : d.fullDone = true)
      (hnodes : d.removedNodes = []) (hedges : d.removedEdges = []) : ChunkRun [d]
  | chunk {d q} (hfull : d.isFull = false) (hpart : d.isPartial = true) (hdone : d.fullDone = false)
      (hnodes : d.removedNodes = []) (hedges : d.removedEdges = []) (rest : ChunkRun q) :
      ChunkRun (d :: q)

theorem ChunkRun.framing {q : List (ViewDelta F)} (h : ChunkRun q) : Framing true q := by
  induction h with
  | last hfull hpart hdone hnodes hedges => exact .last hfull hpart hdone hnodes hedges .done
  | chunk hfull hpart hdone hnodes hedges _ ih => exact .chunk hfull hpart hdone hnodes hedges ih

/-- Chunks are known by their marks. -/
theorem chunkRun_of_marks {q : List (ViewDelta F)} {k : Nat}
    (hfull : q.map ViewDelta.isFull = List.replicate (k + 1) false)
    (hpart : q.map ViewDelta.isPartial = List.replicate (k + 1) true)
    (hdone : q.map ViewDelta.fullDone = List.replicate k false ++ [true])
    (hgone : ∀ d ∈ q, d.removedNodes = [] ∧ d.removedEdges = []) : ChunkRun q := by
  induction k generalizing q with
  | zero =>
    cases q with
    | nil => cases hfull
    | cons d q =>
      obtain ⟨hf, hq⟩ := List.cons.inj hfull
      obtain ⟨hn, he⟩ := hgone d (List.mem_cons_self ..)
      have hnil : q = [] := List.map_eq_nil_iff.mp hq
      subst hnil
      exact .last hf (List.cons.inj hpart).1 (List.cons.inj hdone).1 hn he
  | succ k ih =>
    cases q with
    | nil => cases hfull
    | cons d q =>
      obtain ⟨hf, hfq⟩ := List.cons.inj hfull
      obtain ⟨hp, hpq⟩ := List.cons.inj hpart
      obtain ⟨hd, hdq⟩ := List.cons.inj hdone
      obtain ⟨hn, he⟩ := hgone d (List.mem_cons_self ..)
      exact .chunk hf hp hd hn he (ih hfq hpq hdq fun d' hd' => hgone d' (List.mem_cons_of_mem _ hd'))

/-- The messages of one delta: the delta itself, or the chunks of a full snapshot. -/
theorem splitDelta_messages {d : ViewDelta F} (hp : d.isPartial = false) :
    (∃ m, splitDelta d = [m] ∧ m.isFull = d.isFull ∧ m.isPartial = false ∧ m.fullDone = d.isFull)
      ∨ (d.isFull = true ∧ ∃ m q, splitDelta d = m :: q ∧ m.isFull = true ∧ m.isPartial = true
        ∧ m.fullDone = false ∧ ChunkRun q) := by
  obtain ⟨-, hsplit⟩ := splitDelta_spec d
  rcases hsplit with ⟨m, hm, hfull, hpart, hdone⟩ | ⟨hd, k, hfull, hpart, hdone⟩
  · exact Or.inl ⟨m, hm, hfull, hpart.trans hp, hdone⟩
  · have hgone := splitDelta_tail d
    cases hq : splitDelta d with
    | nil => rw [hq] at hfull; cases hfull
    | cons m q =>
      rw [hq] at hfull hpart hdone hgone
      obtain ⟨hf, hfq⟩ := List.cons.inj hfull
      obtain ⟨hpm, hpq⟩ := List.cons.inj hpart
      obtain ⟨hdm, hdq⟩ := List.cons.inj hdone
      exact Or.inr ⟨hd, m, q, rfl, hf, hpm, hdm, chunkRun_of_marks hfq hpq hdq hgone⟩

/-- A delta that is not a chunk itself is split into framed messages. -/
theorem splitDelta_framing {d : ViewDelta F} (hp : d.isPartial = false) :
    Framing false (splitDelta d) := by
  rcases splitDelta_messages hp with ⟨m, hm, hfull, hpart, hdone⟩ | ⟨-, m, q, hm, hf, hpm, hd, hrun⟩
  · rw [hm]
    cases hf : d.isFull with
    | true =>
      rw [hf] at hfull hdone
      exact .full hfull hpart hdone .done
    | false =>
      rw [hf] at hfull hdone
      exact .delta hfull hpart hdone .done
  · rw [hm]
    exact .first hf hpm hd hrun.framing

/-! ## What a tick's messages leave on the page -/

/-- The ids of a list of messages. -/
def Shown.listing (msgs : List (ViewDelta F)) (acc : List String × List String) : Shown where
  nodes := {id | id ∈ acc.1 ++ msgs.flatMap ViewDelta.nodeIDs}
  edges := {id | id ∈ acc.2 ++ msgs.flatMap ViewDelta.edgeIDs}
  syncing := none

/-- What is collected once a chunk is in. -/
theorem collect_chunk {s : Shown} {d : ViewDelta F} {acc : List String × List String}
    (hs : s.syncing = some acc) (hfull : d.isFull = false) :
    s.collect d = some (acc.1 ++ d.nodeIDs, acc.2 ++ d.edgeIDs) := by
  unfold Shown.collect
  rw [hfull, if_neg Bool.false_ne_true, hs]
  rfl

/-- A chunk adds its ids to those already there. -/
theorem mem_apply_of_collected {c : Change String} {s : Set String} {acc : List String}
    (hgone : c.removed = []) (hacc : ∀ id ∈ acc, id ∈ s) :
    ∀ id ∈ acc ++ c.listed, id ∈ c.apply s := by
  intro id hid
  rcases List.mem_append.mp hid with hid | hid
  · exact Or.inr ⟨hacc id hid, by rw [hgone]; exact List.not_mem_nil⟩
  · exact Or.inl hid

/-- A chunk goes on collecting. -/
theorem receive_chunk {m : ViewDelta F} {acc : List String × List String} (hfull : m.isFull = false)
    (hdone : m.fullDone = false) {s : Shown} (hs : s.syncing = some acc) :
    s.receive m = ⟨m.nodeChange.apply s.nodes, m.edgeChange.apply s.edges,
      some (acc.1 ++ m.nodeIDs, acc.2 ++ m.edgeIDs)⟩ := by
  have hr : s.receive m = _ := if_neg (Bool.eq_false_iff.mp hdone)
  rw [hr, collect_chunk hs hfull]

/-- **The last chunk leaves what was collected**, as long as all of it is on the page. -/
theorem ChunkRun.receive {q : List (ViewDelta F)} (h : ChunkRun q) {s : Shown}
    {acc : List String × List String} (hs : s.syncing = some acc)
    (hn : ∀ id ∈ acc.1, id ∈ s.nodes) (he : ∀ id ∈ acc.2, id ∈ s.edges) :
    q.foldl Shown.receive s = Shown.listing q acc := by
  induction h generalizing s acc with
  | @last d hfull _ hdone hnodes hedges =>
    have hr : s.receive d = _ := if_pos hdone
    rw [List.foldl_cons, List.foldl_nil, hr, collect_chunk hs hfull]
    refine Shown.ext (Set.ext fun id => ?_) (Set.ext fun id => ?_) rfl
    · have hall := mem_apply_of_collected (c := d.nodeChange) hnodes hn id
      rw [Shown.listing, List.flatMap_singleton]
      exact ⟨fun h => h.2, fun h => ⟨hall h, h⟩⟩
    · have hall := mem_apply_of_collected (c := d.edgeChange) hedges he id
      rw [Shown.listing, List.flatMap_singleton, List.flatMap_singleton]
      exact ⟨fun h => h.2, fun h => ⟨hall h, h⟩⟩
  | @chunk d q hfull _ hdone hnodes hedges _ ih =>
    rw [List.foldl_cons, receive_chunk hfull hdone hs, ih rfl
      (mem_apply_of_collected (c := d.nodeChange) hnodes hn)
      (mem_apply_of_collected (c := d.edgeChange) hedges he)]
    unfold Shown.listing
    rw [List.flatMap_cons, List.flatMap_cons, List.append_assoc, List.append_assoc]

/-- A full snapshot in one message leaves exactly what it lists. -/
theorem receive_whole {m : ViewDelta F} (hfull : m.isFull = true) (hpart : m.isPartial = false)
    (hdone : m.fullDone = true) (s : Shown) : s.receive m = Shown.listing [m] ([], []) := by
  have hr : s.receive m = _ := if_pos hdone
  have hcollect : s.collect m = none := by
    unfold Shown.collect
    rw [hfull, hpart]
    rfl
  rw [hr, hcollect]
  refine Shown.ext (Set.ext fun id => ?_) (Set.ext fun id => ?_) rfl
  · rw [Shown.listing, List.flatMap_singleton]
    exact ⟨fun h => h.2, fun h => ⟨Or.inl h, h⟩⟩
  · rw [Shown.listing, List.flatMap_singleton, List.flatMap_singleton]
    exact ⟨fun h => h.2, fun h => ⟨Or.inl h, h⟩⟩

/-- The first chunk of a full snapshot starts to collect. -/
theorem receive_first {m : ViewDelta F} (hfull : m.isFull = true) (hpart : m.isPartial = true)
    (hdone : m.fullDone = false) (s : Shown) :
    s.receive m = ⟨m.nodeChange.apply s.nodes, m.edgeChange.apply s.edges,
      some (m.nodeIDs, m.edgeIDs)⟩ := by
  have hr : s.receive m = _ := if_neg (Bool.eq_false_iff.mp hdone)
  have hcollect : s.collect m = some (m.nodeIDs, m.edgeIDs) := by
    unfold Shown.collect
    rw [hfull, hpart]
    rfl
  rw [hr, hcollect]

/-- A delta changes the ids and nothing else. -/
theorem receive_delta {m : ViewDelta F} (hfull : m.isFull = false) (hdone : m.fullDone = false)
    {s : Shown} (hs : s.syncing = none) :
    s.receive m = ⟨m.nodeChange.apply s.nodes, m.edgeChange.apply s.edges, none⟩ := by
  have hr : s.receive m = _ := if_neg (Bool.eq_false_iff.mp hdone)
  have hcollect : s.collect m = none := by
    unfold Shown.collect
    rw [hfull, hs]
    rfl
  rw [hr, hcollect]

/-- **A full snapshot leaves exactly what its messages list**, whatever was there. -/
theorem receive_full {d : ViewDelta F} (hf : d.isFull = true) (hp : d.isPartial = false) (s : Shown) :
    (splitDelta d).foldl Shown.receive s = Shown.listing (splitDelta d) ([], []) := by
  rcases splitDelta_messages hp with ⟨m, hm, hfull, hpart, hdone⟩ | ⟨-, m, q, hm, hfull, hpart, hdone, hrun⟩
  · rw [hm]
    exact receive_whole (hfull.trans hf) hpart (hdone.trans hf) s
  · have hr := receive_first hfull hpart hdone s
    have hrest := hrun.receive (s := s.receive m) (congrArg Shown.syncing hr)
      (by rw [hr]; exact fun id hid => Or.inl hid) (by rw [hr]; exact fun id hid => Or.inl hid)
    rw [hm, List.foldl_cons, hrest]
    unfold Shown.listing
    rw [List.flatMap_cons, List.flatMap_cons]
    rfl

section Diff

variable {α : Type} {key : α → String} {same : α → α → Bool} {full : Bool}
  {last : KeyedMap String α} {view : List α}

/-- What a diff does to the keys recorded last: it leaves those of the view. -/
theorem diff_change (hnd : (view.map key).Nodup) :
    Change.apply {k | ∃ x, last.lookup k = some x}
        ⟨(Delta.diff key same full last view).changed.map key, (Delta.diff key same full last view).removed⟩
      = {k | k ∈ view.map key} := by
  ext k
  have happly : k ∈ Change.apply {k | ∃ x, last.lookup k = some x}
        ⟨(Delta.diff key same full last view).changed.map key, (Delta.diff key same full last view).removed⟩
      ↔ k ∈ (Delta.diff key same full last view).changed.map key
        ∨ (∃ x, last.lookup k = some x) ∧ k ∉ (Delta.diff key same full last view).removed := Iff.rfl
  rw [happly, Delta.diff_changed hnd, Delta.mem_diff_removed hnd]
  constructor
  · intro h
    rcases h with hc | ⟨hl, hr⟩
    · exact (List.filter_sublist.map key).subset hc
    · exact by_contra fun hk => hr ⟨hk, hl⟩
  · intro hk
    obtain ⟨x, hx, rfl⟩ := List.mem_map.mp hk
    by_cases hs : Delta.ships key same full last x = true
    · exact Or.inl (List.mem_map_of_mem (List.mem_filter.mpr ⟨hx, hs⟩))
    · -- not shipped: there was a predecessor
      obtain ⟨prev, hl, -⟩ := Delta.of_ships_eq_false (Bool.eq_false_iff.mpr hs)
      exact Or.inr ⟨⟨prev, hl⟩, fun hr => hr.1 hk⟩

end Diff

/-- The ids of a view. -/
def ViewSnapshot.shown (view : ViewSnapshot F) : Shown where
  nodes := {id | id ∈ view.nodes.map ViewNode.id}
  edges := {id | id ∈ view.edges.map ViewEdge.id}
  syncing := none

/-- The ids of the view a client was last built. -/
def Client.shown (c : Client F) : Shown where
  nodes := {id | ∃ n, c.lastNodes.lookup id = some n}
  edges := {id | ∃ e, c.lastEdges.lookup id = some e}
  syncing := none

variable [Float64 F]

theorem buildDelta_shown (c : Client F) {view : ViewSnapshot F} (hd : view.Distinct)
    (flows : List TrafficFlow) (full : Bool) : (c.buildDelta view flows full).2.shown = view.shown := by
  obtain ⟨hn, he⟩ := buildDelta_last c view flows full
  refine Shown.ext (Set.ext fun id => ?_) (Set.ext fun id => ?_) rfl
  · have hhold : Delta.Holds ViewNode.id view.nodes (c.buildDelta view flows full).2.lastNodes :=
      hn ▸ Delta.diff_last hd.nodes
    constructor
    · intro ⟨n, hl⟩
      obtain ⟨hin, rfl⟩ := (hhold id n).mp hl
      exact List.mem_map_of_mem hin
    · intro hin
      obtain ⟨n, hn, rfl⟩ := List.mem_map.mp hin
      exact ⟨n, hhold.lookup hn⟩
  · have hhold : Delta.Holds ViewEdge.id view.edges (c.buildDelta view flows full).2.lastEdges :=
      he ▸ Delta.diff_last hd.edges
    constructor
    · intro ⟨e, hl⟩
      obtain ⟨hin, rfl⟩ := (hhold id e).mp hl
      exact List.mem_map_of_mem hin
    · intro hin
      obtain ⟨e, he, rfl⟩ := List.mem_map.mp hin
      exact ⟨e, hhold.lookup he⟩

/-- The messages of a full build list the view. -/
theorem full_listing {c : Client F} {view : ViewSnapshot F} {d : ViewDelta F} (hd : view.Distinct)
    (henc : view.Enclosed) (hc : Carries c view true d) :
    Shown.listing (splitDelta d) ([], []) = view.shown := by
  obtain ⟨hsplit, -⟩ := splitDelta_spec d
  have hn : d.nodes = view.nodes := hc.nodes.trans (diff_full hd.nodes)
  have he : d.edges = view.edges := hc.edges.trans (diff_full hd.edges)
  have hedges : ((splitDelta d).map ViewDelta.edges).flatten.Perm view.edges := by
    refine hsplit.edges.trans ?_
    rw [hn, he, hc.isFull]
    split
    · rename_i hchunked
      rw [List.filter_eq_self.mpr fun e he => decide_eq_true (henc hchunked.2 e he)]
    · exact List.Perm.refl _
  refine Shown.ext (Set.ext fun id => ?_) (Set.ext fun id => ?_) rfl
  · have hids : (splitDelta d).flatMap ViewDelta.nodeIDs = view.nodes.map ViewNode.id := by
      rw [← hn, ← hsplit.nodes, List.map_flatten, List.map_map]
      rfl
    show id ∈ [] ++ (splitDelta d).flatMap ViewDelta.nodeIDs ↔ _
    rw [List.nil_append, hids]
    exact Iff.rfl
  · have hids : (splitDelta d).flatMap ViewDelta.edgeIDs
        = ((splitDelta d).map ViewDelta.edges).flatten.map ViewEdge.id := by
      rw [List.map_flatten, List.map_map]
      rfl
    show id ∈ [] ++ (splitDelta d).flatMap ViewDelta.edgeIDs ↔ _
    rw [List.nil_append, hids, (hedges.map ViewEdge.id).mem_iff]
    exact Iff.rfl

/--
**The messages of a tick take a page from the last view to the new one**, and a full
snapshot does so from anywhere.
-/
theorem tick_shown (c : Client F) {t : Tick F} (ht : t.Sendable) {s : Shown}
    (hs : t.full = true ∨ s = c.shown) :
    ((match (c.buildDelta t.view t.flows t.full).1 with
      | none => []
      | some d => splitDelta d).foldl Shown.receive s) = t.view.shown := by
  obtain ⟨-, hmsg⟩ := buildDelta_spec c t.view t.flows t.full
  have hfrom : t.full = false → s = c.shown := fun hf => hs.resolve_left (by rw [hf]; nofun)
  have hnodes : Change.apply c.shown.nodes ⟨(c.diffNodes t.full t.view).changed.map ViewNode.id,
      (c.diffNodes t.full t.view).removed⟩ = t.view.shown.nodes := diff_change ht.1.nodes
  have hedges : Change.apply c.shown.edges ⟨(c.diffEdges t.full t.view).changed.map ViewEdge.id,
      (c.diffEdges t.full t.view).removed⟩ = t.view.shown.edges := diff_change ht.1.edges
  cases hb : (c.buildDelta t.view t.flows t.full).1 with
  | none =>
    -- nothing changed, so the ids of the last view are those of the new one
    rw [hb] at hmsg
    have hkeep : ∀ s : Set String, Change.apply s ⟨[], []⟩ = s := fun s =>
      Set.ext fun id => ⟨fun h => (h.resolve_left List.not_mem_nil).1, fun h => Or.inr ⟨h, List.not_mem_nil⟩⟩
    rw [hmsg.nodes, hmsg.removedNodes, List.map_nil, hkeep] at hnodes
    rw [hmsg.edges, hmsg.removedEdges, List.map_nil, hkeep] at hedges
    rw [hfrom hmsg.notFull]
    exact Shown.ext hnodes hedges rfl
  | some d =>
    rw [hb] at hmsg
    dsimp only
    cases hfull : t.full with
    | true =>
      rw [hfull] at hmsg
      rw [receive_full hmsg.isFull hmsg.isPartial, full_listing ht.1 (ht.2 hfull) hmsg]
    | false =>
      have hd : d.isFull = false := hmsg.isFull.trans hfull
      have hsplit : splitDelta d = [{ d with fullDone := d.isFull }] :=
        if_pos (Or.inl (Bool.eq_false_iff.mp hd))
      have hr := receive_delta (m := { d with fullDone := d.isFull }) (s := c.shown) hd hd rfl
      rw [hfrom hfull, hsplit, List.foldl_cons, List.foldl_nil, hr]
      refine Shown.ext ?_ ?_ rfl
      · show Change.apply c.shown.nodes ⟨d.nodes.map ViewNode.id, d.removedNodes⟩ = _
        rw [hmsg.nodes, hmsg.removedNodes]
        exact hnodes
      · show Change.apply c.shown.edges ⟨d.edges.map ViewEdge.id, d.removedEdges⟩ = _
        rw [hmsg.edges, hmsg.removedEdges]
        exact hedges

end Etherchimp
