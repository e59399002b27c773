import Etherchimp.Lib.KeyedMap
import Etherchimp.Lib.Tally
import Mathlib.Algebra.Order.BigOperators.Group.List
import Mathlib.Algebra.Order.Monoid.Prod
import Mathlib.Algebra.Order.Ring.Nat

/-!
# Keyed totals

A table of counters is what is left of a history of entries, each a key and a
weight. `cell l k` is the counter under `k`: the total weight of the entries for
`k`, and nothing at all when there is none. A table that is right about every
key is one whose lookups are cells.

The lemmas say how a cell moves when the history grows, that the order of the
history does not matter, and that a table built from the rows of another table
(the same history, first grouped by one key and then by a coarser one) has the
cells the history itself would give.
-/

universe u v w

namespace Tally

section Cells

variable {κ : Type u} {M : Type v} [DecidableEq κ] [AddCommMonoid M]

/-- The counter under `k` after the entries. -/
def cell (l : List (κ × M)) (k : κ) : Option M :=
  if k ∈ l.map Prod.fst then some (total Prod.snd (fun x => x.1 = k) l) else none

variable {l l' : List (κ × M)} {k : κ}

@[simp] theorem cell_nil (k : κ) : cell ([] : List (κ × M)) k = none := rfl

theorem cell_eq_none : cell l k = none ↔ k ∉ l.map Prod.fst := by
  unfold cell
  split
  · rename_i h
    exact iff_of_false (Option.some_ne_none _) (not_not_intro h)
  · rename_i h
    exact iff_of_true rfl h

theorem cell_eq_none_iff : cell l = (fun _ => none) ↔ l = [] := by
  refine ⟨fun h => ?_, fun h => by rw [h]; rfl⟩
  rw [List.eq_nil_iff_forall_not_mem]
  intro x hx
  exact cell_eq_none.mp (congrFun h x.1) (List.mem_map_of_mem hx)

/-- There is a cell exactly for the keys of the history. -/
theorem cell_eq_some {v : M} :
    cell l k = some v ↔ k ∈ l.map Prod.fst ∧ total Prod.snd (fun x => x.1 = k) l = v := by
  unfold cell
  split
  · rename_i h
    rw [Option.some.injEq]
    exact ⟨fun hv => ⟨h, hv⟩, fun hv => hv.2⟩
  · rename_i h
    exact iff_of_false (fun hn => nomatch hn) (fun hv => h hv.1)

/-- Two histories one after the other. -/
theorem cell_append (l l' : List (κ × M)) (k : κ) :
    cell (l ++ l') k = Option.merge (· + ·) (cell l k) (cell l' k) := by
  have hzero : ∀ {l : List (κ × M)}, k ∉ l.map Prod.fst →
      total Prod.snd (fun x => decide (x.1 = k)) l = 0 := by
    intro l hk
    refine total_eq_zero fun x hx => decide_eq_false fun hxk => hk ?_
    exact List.mem_map.mpr ⟨x, hx, hxk⟩
  unfold cell
  rw [List.map_append, total_append]
  by_cases h : k ∈ l.map Prod.fst
  · rw [if_pos (List.mem_append_left _ h), if_pos h]
    by_cases h' : k ∈ l'.map Prod.fst
    · rw [if_pos h', Option.merge_some_some]
    · rw [if_neg h', Option.merge_none_right, hzero h', add_zero]
  · rw [if_neg h, Option.merge_none_left]
    by_cases h' : k ∈ l'.map Prod.fst
    · rw [if_pos (List.mem_append_right _ h'), if_pos h', hzero h, zero_add]
    · rw [if_neg h', if_neg fun hm => (List.mem_append.mp hm).elim h h']

theorem cell_single (a : κ) (x : M) (k : κ) :
    cell [(a, x)] k = if k = a then some x else none := by
  unfold cell total
  by_cases h : k = a
  · simp [h]
  · simp [h]

/-- A counter after one more entry under `a`. -/
def bump (t : κ → Option M) (a : κ) (x : M) : κ → Option M :=
  fun k => if k = a then some ((t a).getD 0 + x) else t k

theorem cell_concat (l : List (κ × M)) (a : κ) (x : M) :
    cell (l ++ [(a, x)]) = bump (cell l) a x := by
  funext k
  rw [cell_append, cell_single, bump]
  split
  · rename_i h
    subst h
    cases cell l k with
    | none => simp
    | some v => rfl
  · exact Option.merge_none_right

theorem cell_append_of_notMem (h : k ∉ l'.map Prod.fst) : cell (l ++ l') k = cell l k := by
  rw [cell_append, cell_eq_none.mpr h, Option.merge_none_right]

/-- Only the entries count, not their order. -/
theorem cell_perm (h : l.Perm l') : cell l = cell l' := by
  funext k
  have hk : k ∈ l.map Prod.fst ↔ k ∈ l'.map Prod.fst := (h.map Prod.fst).mem_iff
  have ht : total Prod.snd (fun x => decide (x.1 = k)) l
      = total Prod.snd (fun x => decide (x.1 = k)) l' :=
    ((h.filter _).map _).sum_eq
  unfold cell
  rw [ht]
  exact if_congr hk rfl rfl

/-- The entries for `k` may be filed elsewhere under another key. -/
theorem cell_reindex {α : Type u} {κ' : Type u} [DecidableEq κ'] {l : List α} {key : α → κ}
    {key' : α → κ'} {w : α → M} {p : α → Bool} {k : κ} {k' : κ'}
    (h : ∀ x ∈ l, key x = k ↔ p x = true ∧ key' x = k') :
    cell (l.map fun x => (key x, w x)) k
      = cell ((l.filter p).map fun x => (key' x, w x)) k' := by
  induction l using List.reverseRecOn with
  | nil => rfl
  | append_singleton l x ih =>
    have hx := h x (List.mem_append_right _ (List.mem_singleton_self x))
    have hl := ih fun y hy => h y (List.mem_append_left _ hy)
    rw [List.map_append, List.map_singleton, List.filter_append, List.filter_singleton,
      List.map_append, cell_append, cell_append, hl, cell_single]
    cases hp : p x with
    | false =>
      have hne : ¬ k = key x := by
        intro hk
        have hpx := (hx.mp hk.symm).1
        rw [hp] at hpx
        cases hpx
      rw [if_neg hne]
      rfl
    | true =>
      rw [cond_true, List.map_singleton, cell_single]
      simp only [hp, true_and] at hx
      by_cases hk : key x = k
      · rw [if_pos hk.symm, if_pos (hx.mp hk).symm]
      · rw [if_neg (Ne.symm hk), if_neg fun hk' => hk (hx.mpr hk'.symm)]

/-- Entries that come in pairs of one weight, summed one half after the other. -/
theorem cell_pairs {α : Type u} (l : List α) (a b : α → κ) (w : α → M) (k : κ) :
    cell (l.flatMap fun x => [(a x, w x), (b x, w x)]) k
      = Option.merge (· + ·) (cell (l.map fun x => (a x, w x)) k)
          (cell (l.map fun x => (b x, w x)) k) := by
  rw [← cell_append]
  refine congrFun (cell_perm ?_) k
  induction l with
  | nil => exact .refl _
  | cons x l ih =>
    refine (ih.cons (b x, w x)).cons (a x, w x) |>.trans ?_
    exact (List.perm_middle.symm).cons (a x, w x)

/-! ## Entries that cannot vanish -/

section Order

variable [PartialOrder M] [CanonicallyOrderedAdd M]

/-- A counter never goes down. -/
theorem cell_le (l l' : List (κ × M)) (k : κ) : cell l k ≤ cell (l ++ l') k := by
  rw [cell_append]
  cases cell l k with
  | none => exact Option.none_le
  | some v =>
    cases cell l' k with
    | none => exact Option.some_le_some.mpr (le_refl v)
    | some x => exact Option.some_le_some.mpr le_self_add

/-- The total of entries that weigh something weighs something. -/
theorem cell_ne_zero (hw : ∀ x ∈ l, x.2 ≠ 0) {v : M} (h : cell l k = some v) : v ≠ 0 := by
  obtain ⟨hk, rfl⟩ := cell_eq_some.mp h
  obtain ⟨x, hx, rfl⟩ := List.mem_map.mp hk
  intro hz
  have hmem : x.2 ∈ (l.filter fun y => decide (y.1 = x.1)).map Prod.snd :=
    List.mem_map_of_mem (List.mem_filter.mpr ⟨hx, decide_eq_true rfl⟩)
  exact hw x hx (le_antisymm (hz ▸ List.le_sum_of_mem hmem) zero_le)

/-- Entries that weigh something are missed when they are left out. -/
theorem cell_append_ne [IsCancelAdd M] (hw : ∀ x ∈ l', x.2 ≠ 0) (hk : k ∈ l'.map Prod.fst) :
    cell (l ++ l') k ≠ cell l k := by
  intro heq
  obtain ⟨x, hx⟩ := Option.ne_none_iff_exists'.mp (fun hn => cell_eq_none.mp hn hk)
  rw [cell_append, hx] at heq
  cases hl : cell l k with
  | none =>
    rw [hl] at heq
    cases heq
  | some v =>
    rw [hl, Option.merge_some_some, Option.some.injEq] at heq
    exact cell_ne_zero hw hx (by simpa using heq)

end Order

end Cells

/-! ## The counters of a map -/

section Counters

variable {κ : Type u} {ν : Type w} {M : Type v} [DecidableEq κ]

/-- The counter a map keeps under each key. -/
def counters (f : ν → M) (m : KeyedMap κ ν) : κ → Option M := fun k => (m.lookup k).map f

variable {f : ν → M} {m : KeyedMap κ ν}

theorem counters_eq_none_iff : counters f m = (fun _ => none) ↔ m.entries = [] := by
  constructor
  · intro h
    rw [List.eq_nil_iff_forall_not_mem]
    intro e he
    have hl : m.lookup e.1 = some e.2 := (KeyedMap.mem_entries_iff m e.1 e.2).mp he
    have hn := congrFun h e.1
    unfold counters at hn
    rw [hl] at hn
    cases hn
  · intro h
    have hm : m = ∅ := AList.ext h
    rw [hm]
    rfl

/-- Updating the value under one key, or a fresh one, adds to one counter. -/
theorem counters_insert [AddCommMonoid M] (m : KeyedMap κ ν) (a : κ) {d : ν} {g : ν → ν} {x : M}
    (hd : f d = 0) (hg : ∀ y, f (g y) = f y + x) :
    counters f (m.insert a (g ((m.lookup a).getD d))) = bump (counters f m) a x := by
  funext k
  unfold counters bump
  rw [KeyedMap.lookup_insert_eq]
  split
  · rw [Option.map_some, hg]
    cases ha : m.lookup a with
    | none => rw [Option.getD_none, hd]; simp [ha]
    | some y => simp [ha]
  · rfl

/-- The keys of a map that holds the cells of a history are the keys of the history. -/
theorem exists_iff_of_counters [AddCommMonoid M] {l : List (κ × M)} (h : counters f m = cell l)
    (k : κ) : (∃ x, m.lookup k = some x) ↔ k ∈ l.map Prod.fst := by
  have hk := congrFun h k
  unfold counters at hk
  rw [← Option.ne_none_iff_exists', ← not_iff_not, not_not, ← cell_eq_none, ← hk,
    Option.map_eq_none_iff]

theorem counters_copyKeys (ks : List κ) (k : κ) :
    counters f (KeyedMap.copyKeys m ks) k = if k ∈ ks then counters f m k else none := by
  unfold counters
  rw [KeyedMap.lookup_copyKeys]
  split <;> rfl

theorem counters_eraseAll (ks : List κ) (k : κ) :
    counters f (KeyedMap.eraseAll m ks) k = if k ∈ ks then none else counters f m k := by
  unfold counters
  rw [KeyedMap.lookup_eraseAll]
  split <;> rfl

variable {ω : Type w} {g : ω → M} {u : Option ω → ν → ω}

/-- Overwriting: the batch's counters where it has one. -/
theorem counters_upsertAll_or (rows : KeyedMap κ ω) (hu : ∀ o x, g (u o x) = f x) (k : κ) :
    counters g (KeyedMap.upsertAll u rows m) k = (counters f m k).or (counters g rows k) := by
  unfold counters
  rw [KeyedMap.lookup_upsertAll]
  cases m.lookup k with
  | none => rfl
  | some x => simp [hu]

/-- Adding: the batch's counters on top of the rows'. -/
theorem counters_upsertAll_merge [AddCommMonoid M] (rows : KeyedMap κ ω)
    (hnone : ∀ x, g (u none x) = f x) (hsome : ∀ r x, g (u (some r) x) = g r + f x) (k : κ) :
    counters g (KeyedMap.upsertAll u rows m) k
      = Option.merge (· + ·) (counters g rows k) (counters f m k) := by
  unfold counters
  rw [KeyedMap.lookup_upsertAll]
  cases m.lookup k with
  | none => simp
  | some x =>
    cases rows.lookup k with
    | none => simp [hnone]
    | some r => simp [hsome]

/-- A map filled entry by entry, each added to what is there. -/
def collect (u : Option ω → ν → ω) (l : List (κ × ν)) : KeyedMap κ ω :=
  l.foldl (fun (m : KeyedMap κ ω) e => m.insert e.1 (u (m.lookup e.1) e.2)) ∅

/-- Adding entry by entry sums them up, key by key. -/
theorem counters_collect [AddCommMonoid M] (l : List (κ × ν))
    (hnone : ∀ x, g (u none x) = f x) (hsome : ∀ r x, g (u (some r) x) = g r + f x) :
    counters g (collect u l) = cell (l.map fun e => (e.1, f e.2)) := by
  induction l using List.reverseRecOn with
  | nil => rfl
  | append_singleton l e ih =>
    unfold collect at ih ⊢
    rw [List.foldl_append, List.map_append]
    generalize l.foldl _ (∅ : KeyedMap κ ω) = m at ih ⊢
    show counters g (m.insert e.1 (u (m.lookup e.1) e.2)) = cell (_ ++ [(e.1, f e.2)])
    rw [cell_concat, ← ih]
    funext k
    unfold counters bump
    rw [KeyedMap.lookup_insert_eq]
    split
    · cases hm : m.lookup e.1 with
      | none => simp [hnone, hm]
      | some r => simp [hsome, hm]
    · rfl

end Counters

/-! ## Tables built from tables -/

section Regroup

variable {α : Type u} {κ κ' : Type u} {ρ : Type u} {M M' : Type v} [DecidableEq κ]
  [DecidableEq κ'] [AddCommMonoid M] [AddCommMonoid M']

/-- The entries of one row, filed under the row's new key, make one cell. -/
theorem cell_const {l : List α} {key : α → κ'} {w : α → M'} {a : κ'}
    (hkey : ∀ x ∈ l, key x = a) (hne : l ≠ []) (k : κ') :
    cell (l.map fun x => (key x, w x)) k = if k = a then some (l.map w).sum else none := by
  split
  · rename_i hk
    refine cell_eq_some.mpr ⟨?_, ?_⟩
    · obtain ⟨x, hx⟩ := List.exists_mem_of_ne_nil l hne
      exact List.mem_map.mpr ⟨_, List.mem_map_of_mem hx, by rw [hk]; exact hkey x hx⟩
    · unfold total
      rw [List.filter_eq_self.mpr]
      · rw [List.map_map]; rfl
      · intro y hy
        obtain ⟨x, hx, rfl⟩ := List.mem_map.mp hy
        rw [hk]
        exact decide_eq_true (hkey x hx)
  · rename_i hk
    refine cell_eq_none.mpr fun hm => ?_
    obtain ⟨y, hy, hyk⟩ := List.mem_map.mp hm
    obtain ⟨x, hx, rfl⟩ := List.mem_map.mp hy
    exact hk (hyk ▸ hkey x hx)

/--
**Grouping in two steps.** The rows hold the cells of a history under a first
key, one row a key. When every row knows the second key of its entries, and how
its total turns into their second weights, the rows filed under the second key
have the cells the history has under the second key.
-/
theorem cell_regroup {l : List α} {key : α → κ} {w : α → M} {key' : α → κ'} {w' : α → M'}
    {rows : List ρ} {id : ρ → κ} {val : ρ → M} {rkey : ρ → κ'} {f : ρ → M →+ M'}
    (hnodup : (rows.map id).Nodup)
    (hval : ∀ r ∈ rows, cell (l.map fun x => (key x, w x)) (id r) = some (val r))
    (hcover : ∀ x ∈ l, ∃ r ∈ rows, id r = key x)
    (hrow : ∀ r ∈ rows, ∀ x ∈ l, key x = id r → key' x = rkey r ∧ w' x = f r (w x)) (k : κ') :
    cell (rows.map fun r => (rkey r, f r (val r))) k = cell (l.map fun x => (key' x, w' x)) k := by
  induction rows generalizing l with
  | nil =>
    have hl : l = [] := List.eq_nil_iff_forall_not_mem.mpr fun x hx => by
      obtain ⟨r, hr, -⟩ := hcover x hx
      cases hr
    rw [hl]
    rfl
  | cons r rows ih =>
    rw [List.map_cons, List.nodup_cons] at hnodup
    have hr := List.mem_cons_self (a := r) (l := rows)
    have hrest : ∀ {q : ρ}, q ∈ rows → q ∈ r :: rows := fun hq => List.mem_cons_of_mem r hq
    -- the entries of this row, and all the others
    have hperm := List.filter_append_perm (fun x => decide (key x = id r)) l
    generalize hmine : l.filter (fun x => decide (key x = id r)) = mine at hperm
    generalize hothers : l.filter (fun x => !decide (key x = id r)) = others at hperm
    have hmem : ∀ x ∈ mine, x ∈ l ∧ key x = id r := by
      intro x hx
      rw [← hmine, List.mem_filter, decide_eq_true_eq] at hx
      exact hx
    have hother : ∀ x ∈ others, x ∈ l ∧ key x ≠ id r := by
      intro x hx
      rw [← hothers, List.mem_filter, Bool.not_eq_true', decide_eq_false_iff_not] at hx
      exact hx
    have hsplit : ∀ a, cell (l.map fun x => (key x, w x)) a = Option.merge (· + ·)
        (cell (mine.map fun x => (key x, w x)) a) (cell (others.map fun x => (key x, w x)) a) := by
      intro a
      rw [← cell_append, ← List.map_append]
      exact (congrFun (cell_perm (hperm.map _)) a).symm
    have hnone : cell (others.map fun x => (key x, w x)) (id r) = none := by
      refine cell_eq_none.mpr fun hm => ?_
      obtain ⟨y, hy, hyk⟩ := List.mem_map.mp hm
      obtain ⟨x, hx, rfl⟩ := List.mem_map.mp hy
      exact (hother x hx).2 hyk
    have hne : mine ≠ [] := by
      intro hnil
      have hv := hval r hr
      rw [hsplit, hnone, hnil] at hv
      cases hv
    -- the row's total is the total of its entries
    have hsum : (mine.map w).sum = val r := by
      have hv := hval r hr
      rw [hsplit, hnone, Option.merge_none_right,
        cell_const (fun x hx => (hmem x hx).2) hne, if_pos rfl, Option.some.injEq] at hv
      exact hv
    have htail := ih hnodup.2 (l := others)
      (fun q hq => by
        have hv := hval q (hrest hq)
        have hqr : id q ≠ id r := fun h => hnodup.1 (h ▸ List.mem_map_of_mem hq)
        rw [hsplit, cell_const (fun x hx => (hmem x hx).2) hne, if_neg hqr,
          Option.merge_none_left] at hv
        exact hv)
      (fun x hx => by
        obtain ⟨q, hq, hqx⟩ := hcover x (hother x hx).1
        rcases List.mem_cons.mp hq with rfl | hq
        · exact absurd hqx.symm (hother x hx).2
        · exact ⟨q, hq, hqx⟩)
      (fun q hq x hx => hrow q (hrest hq) x (hother x hx).1)
    have hhead : cell (mine.map fun x => (key' x, w' x)) k
        = cell [(rkey r, f r (val r))] k := by
      have hkey : ∀ x ∈ mine, key' x = rkey r :=
        fun x hx => (hrow r hr x (hmem x hx).1 (hmem x hx).2).1
      have hw : mine.map w' = mine.map fun x => f r (w x) :=
        List.map_congr_left fun x hx => (hrow r hr x (hmem x hx).1 (hmem x hx).2).2
      rw [cell_const hkey hne, cell_single, ← hsum, map_list_sum, hw, List.map_map]
      rfl
    have happ : ∀ tail : List (κ' × M'), (rkey r, f r (val r)) :: tail
        = [(rkey r, f r (val r))] ++ tail := fun _ => rfl
    rw [← congrFun (cell_perm (hperm.map fun x => (key' x, w' x))) k, List.map_append, cell_append,
      hhead, ← htail, List.map_cons, happ, cell_append]

/--
A map that holds the cells of a history, read row by row: the rows whose key is
in `p`, filed under what `file` makes of the key, have the cells of the entries.
-/
theorem cell_rows {ω : Type u} {g : ω → M} {m : KeyedMap κ ω} {l : List α} {key : α → κ}
    {w : α → M} (hm : counters g m = cell (l.map fun x => (key x, w x))) {p : κ → Bool}
    {rows : List (κ × ω)}
    (hrows : rows.Perm ((m.entries.filter fun e => p e.1).map fun e => (e.1, e.2)))
    (file : κ → κ') (π : M →+ M') (k : κ') :
    cell (rows.map fun r => (file r.1, π (g r.2))) k
      = cell ((l.filter fun x => p (key x)).map fun x => (file (key x), π (w x))) k := by
  have hmem : ∀ r, r ∈ rows ↔ m.lookup r.1 = some r.2 ∧ p r.1 = true := by
    intro r
    rw [hrows.mem_iff, List.mem_map]
    constructor
    · intro ⟨e, he, her⟩
      obtain ⟨he, hp⟩ := List.mem_filter.mp he
      rw [← her]
      exact ⟨(KeyedMap.mem_entries_iff m e.1 e.2).mp he, hp⟩
    · intro ⟨hl, hp⟩
      exact ⟨⟨r.1, r.2⟩, List.mem_filter.mpr ⟨(KeyedMap.mem_entries_iff m r.1 r.2).mpr hl, hp⟩, rfl⟩
  have hnodup : (rows.map Prod.fst).Nodup := by
    rw [(hrows.map Prod.fst).nodup_iff, List.map_map]
    have hkeys : m.entries.keys.Nodup := m.nodupKeys
    exact hkeys.sublist (List.filter_sublist.map Sigma.fst)
  have hval : ∀ r ∈ rows,
      cell ((l.filter fun x => p (key x)).map fun x => (key x, w x)) r.1 = some (g r.2) := by
    intro r hr
    obtain ⟨hl, hp⟩ := (hmem r).mp hr
    have hcell := congrFun hm r.1
    unfold counters at hcell
    rw [hl, Option.map_some] at hcell
    rw [hcell]
    refine (cell_reindex fun x _ => ?_).symm
    exact ⟨fun hx => ⟨by rw [hx]; exact hp, hx⟩, fun hx => hx.2⟩
  have hcover : ∀ x ∈ l.filter fun x => p (key x), ∃ r ∈ rows, r.1 = key x := by
    intro x hx
    obtain ⟨hx, hp⟩ := List.mem_filter.mp hx
    have hcell := congrFun hm (key x)
    unfold counters at hcell
    cases hl : m.lookup (key x) with
    | none =>
      rw [hl] at hcell
      exact absurd (List.mem_map.mpr ⟨_, List.mem_map_of_mem hx, rfl⟩) (cell_eq_none.mp hcell.symm)
    | some y => exact ⟨(key x, y), (hmem _).mpr ⟨hl, hp⟩, rfl⟩
  have hrow : ∀ r ∈ rows, ∀ x ∈ l.filter fun x => p (key x), key x = r.1 →
      file (key x) = file r.1 ∧ π (w x) = π (w x) := fun r _ x _ hx => ⟨by rw [hx], rfl⟩
  exact cell_regroup hnodup hval hcover hrow k

end Regroup

end Tally
