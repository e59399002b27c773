import Etherchimp.Lib.Cells

/-!
# Write-back tables

Counters live in memory and reach the rows of a store in batches: a snapshot
moves what has to be written into a batch, and the batch is written later, when
more entries may have arrived. There are two disciplines.

An **absolute** table keeps cumulative counters and marks the ones that changed;
the batch is a copy of the marked counters and writing it overwrites the rows. An
**additive** table keeps deltas, moves all of them into the batch, and writing it
adds to the rows.

Both are described by the history of entries, cut at the last snapshot. The
absolute invariant is about a set `p` of keys and the rows `base` found when the
counters of `p` were last forgotten.
-/

universe u v

namespace WriteBack

open Tally

variable {κ : Type u} {M : Type v} [DecidableEq κ] [AddCommMonoid M]

/-! ## Tables of absolute counters -/

/-- Cumulative counters, the marks on the changed ones, the batch, the rows. -/
@[ext] structure AbsoluteTable (κ : Type u) (M : Type v) where
  cells : κ → Option M
  dirty : κ → Bool
  batch : κ → Option M
  rows : κ → Option M

namespace AbsoluteTable

/-- One more entry. -/
def add (t : AbsoluteTable κ M) (a : κ) (x : M) : AbsoluteTable κ M :=
  { t with cells := bump t.cells a x, dirty := fun k => t.dirty k || k = a }

/-- The marked counters become the batch. -/
def snapshot (t : AbsoluteTable κ M) : AbsoluteTable κ M :=
  { t with
    batch := fun k => if t.dirty k then t.cells k else none
    dirty := fun _ => false }

/-- What the rows will be once the batch is written. -/
def visible (t : AbsoluteTable κ M) (k : κ) : Option M := (t.batch k).or (t.rows k)

/-- The batch is written over the rows. -/
def commit (t : AbsoluteTable κ M) : AbsoluteTable κ M :=
  { t with rows := t.visible, batch := fun _ => none }

/-- The batch is lost. -/
def rollback (t : AbsoluteTable κ M) : AbsoluteTable κ M := { t with batch := fun _ => none }

/-- The counters of some keys are forgotten, and their marks with them. -/
def forget (t : AbsoluteTable κ M) (q : κ → Bool) : AbsoluteTable κ M :=
  { t with
    cells := fun k => if q k then none else t.cells k
    dirty := fun k => t.dirty k && !q k }

variable {p : κ → Prop} {base : κ → Option M} {old new : List (κ × M)} {t : AbsoluteTable κ M}

/-- The keys in `p`, after the entries `old` before the last snapshot and `new` since. -/
structure Inv (p : κ → Prop) (base : κ → Option M) (old new : List (κ × M))
    (t : AbsoluteTable κ M) : Prop where
  cells : ∀ k, p k → t.cells k = cell (old ++ new) k
  dirty : ∀ k, p k → (t.dirty k = true ↔ k ∈ new.map Prod.fst)
  visible : ∀ k, p k → t.visible k = (cell old k).or (base k)

theorem Inv.add (a : κ) (x : M) (h : Inv p base old new t) :
    Inv p base old (new ++ [(a, x)]) (t.add a x) where
  cells := by
    intro k hk
    rw [← List.append_assoc, cell_concat]
    unfold AbsoluteTable.add bump
    dsimp only
    split
    · rename_i hka
      rw [← h.cells a (hka ▸ hk)]
    · exact h.cells k hk
  dirty := by
    intro k hk
    show (t.dirty k || decide (k = a)) = true ↔ _
    rw [Bool.or_eq_true, h.dirty k hk]
    simp
  visible := h.visible

theorem Inv.snapshot (hb : ∀ k, p k → t.batch k = none) (h : Inv p base old new t) :
    Inv p base (old ++ new) [] t.snapshot where
  cells := by
    intro k hk
    rw [List.append_nil]
    exact h.cells k hk
  dirty := by
    intro k hk
    show false = true ↔ _
    simp
  visible := by
    intro k hk
    have hv := h.visible k hk
    unfold AbsoluteTable.visible at hv ⊢
    rw [hb k hk, Option.none_or] at hv
    show (if t.dirty k then t.cells k else none).or (t.rows k) = _
    split
    · rename_i hd
      have hmem : k ∈ (old ++ new).map Prod.fst := by
        rw [List.map_append]
        exact List.mem_append_right _ ((h.dirty k hk).mp hd)
      obtain ⟨v, hv'⟩ := Option.ne_none_iff_exists'.mp (fun hn => cell_eq_none.mp hn hmem)
      rw [h.cells k hk, hv']
      rfl
    · rename_i hd
      rw [cell_append_of_notMem fun hm => hd ((h.dirty k hk).mpr hm), Option.none_or]
      exact hv

theorem Inv.commit (h : Inv p base old new t) : Inv p base old new t.commit where
  cells := h.cells
  dirty := h.dirty
  visible := by
    intro k hk
    show (none : Option M).or (t.visible k) = _
    rw [Option.none_or]
    exact h.visible k hk

/-- Losing an empty batch loses nothing. -/
theorem Inv.rollback (hb : ∀ k, p k → t.batch k = none) (h : Inv p base old new t) :
    Inv p base old new t.rollback where
  cells := h.cells
  dirty := h.dirty
  visible := by
    intro k hk
    have hv := h.visible k hk
    unfold AbsoluteTable.visible at hv
    rwa [hb k hk] at hv

/-- A batch holds only keys of the entries it was taken from. -/
theorem Inv.snapshot_batch (h : Inv p base old new t) {k : κ} (hk : p k)
    (hn : k ∉ new.map Prod.fst) : t.snapshot.batch k = none :=
  if_neg fun hd => hn ((h.dirty k hk).mp hd)

/-- Forgetting other keys changes nothing here. -/
theorem Inv.forget_other {q : κ → Bool} (hq : ∀ k, p k → q k = false) (h : Inv p base old new t) :
    Inv p base old new (t.forget q) where
  cells := by
    intro k hk
    show (if q k then none else t.cells k) = _
    rw [hq k hk]
    exact h.cells k hk
  dirty := by
    intro k hk
    show (t.dirty k && !q k) = true ↔ _
    rw [hq k hk, Bool.not_false, Bool.and_true]
    exact h.dirty k hk
  visible := h.visible

/-- Forgetting these keys starts them afresh over the rows written so far. -/
theorem Inv.forget {q : κ → Bool} (hq : ∀ k, p k → q k = true) (h : Inv p base old new t) :
    Inv p (fun k => (cell old k).or (base k)) [] [] (t.forget q) where
  cells := by
    intro k hk
    show (if q k then none else t.cells k) = _
    rw [hq k hk]
    rfl
  dirty := by
    intro k hk
    show (t.dirty k && !q k) = true ↔ _
    simp [hq k hk]
  visible := h.visible

/-- With nothing in flight and nothing marked, the rows are what was recorded. -/
theorem Inv.settled (hb : ∀ k, p k → t.batch k = none) (h : Inv p base old [] t) {k : κ}
    (hk : p k) : t.rows k = (cell old k).or (base k) := by
  have hv := h.visible k hk
  unfold AbsoluteTable.visible at hv
  rw [hb k hk, Option.none_or] at hv
  exact hv

/-! ### Keys nobody writes -/

/-- The keys in `p` are neither marked nor in the batch. -/
structure Calm (p : κ → Prop) (t : AbsoluteTable κ M) : Prop where
  dirty : ∀ k, p k → t.dirty k = false
  batch : ∀ k, p k → t.batch k = none

/-- There are no counters for the keys in `p`. -/
def Bare (p : κ → Prop) (t : AbsoluteTable κ M) : Prop := ∀ k, p k → t.cells k = none

theorem Calm.add (h : Calm p t) {a : κ} (ha : ¬ p a) (x : M) : Calm p (t.add a x) where
  dirty := by
    intro k hk
    show (t.dirty k || decide (k = a)) = false
    rw [h.dirty k hk, Bool.false_or]
    exact decide_eq_false fun hka => ha (hka ▸ hk)
  batch := h.batch

theorem Bare.add (h : Bare p t) {a : κ} (ha : ¬ p a) (x : M) : Bare p (t.add a x) := by
  intro k hk
  have hka : k ≠ a := fun hka => ha (hka ▸ hk)
  exact (if_neg hka).trans (h k hk)

omit [DecidableEq κ] [AddCommMonoid M] in
theorem Calm.snapshot (h : Calm p t) : Calm p t.snapshot where
  dirty _ _ := rfl
  batch k hk := if_neg fun hd => Bool.false_ne_true ((h.dirty k hk).symm.trans hd)

omit [DecidableEq κ] [AddCommMonoid M] in
theorem Calm.commit (h : Calm p t) : Calm p t.commit := ⟨h.dirty, fun _ _ => rfl⟩

omit [DecidableEq κ] [AddCommMonoid M] in
/-- The transaction leaves the rows of calm keys alone. -/
theorem Calm.commit_rows (h : Calm p t) {k : κ} (hk : p k) : t.commit.rows k = t.rows k := by
  show (t.batch k).or (t.rows k) = t.rows k
  rw [h.batch k hk, Option.none_or]

omit [DecidableEq κ] [AddCommMonoid M] in
theorem Calm.rollback (h : Calm p t) : Calm p t.rollback := ⟨h.dirty, fun _ _ => rfl⟩

omit [DecidableEq κ] [AddCommMonoid M] in
theorem Calm.forget (q : κ → Bool) (h : Calm p t) : Calm p (t.forget q) where
  dirty k hk := by
    show (t.dirty k && !q k) = false
    rw [h.dirty k hk, Bool.false_and]
  batch := h.batch

omit [DecidableEq κ] [AddCommMonoid M] in
theorem Bare.forget (q : κ → Bool) (h : Bare p t) : Bare p (t.forget q) := by
  intro k hk
  show (if q k then none else t.cells k) = none
  rw [h k hk, ite_self]

/-- With everything taken up, the next snapshot finds nothing. -/
theorem Inv.calm (hb : ∀ k, p k → t.batch k = none) (h : Inv p base old [] t) : Calm p t where
  dirty k hk := Bool.eq_false_iff.mpr fun hd => nomatch (h.dirty k hk).mp hd
  batch := hb

/-- Keys nobody has written yet. -/
theorem inv_init (hc : Calm p t) (hbare : Bare p t) : Inv p t.rows [] [] t where
  cells := hbare
  dirty k hk := iff_of_false (fun hd => Bool.false_ne_true ((hc.dirty k hk).symm.trans hd)) nofun
  visible k hk := by
    show (t.batch k).or (t.rows k) = _
    rw [hc.batch k hk]
    rfl

theorem Inv.congr_base {base' : κ → Option M} (hbase : ∀ k, p k → base k = base' k)
    (h : Inv p base old new t) : Inv p base' old new t where
  cells := h.cells
  dirty := h.dirty
  visible k hk := (hbase k hk) ▸ h.visible k hk

/-- Rows of other keys may change. -/
theorem Inv.congr_rows {rows : κ → Option M} (hrows : ∀ k, p k → rows k = t.rows k)
    (h : Inv p base old new t) : Inv p base old new { t with rows := rows } where
  cells := h.cells
  dirty := h.dirty
  visible k hk := by
    show (t.batch k).or (rows k) = _
    rw [hrows k hk]
    exact h.visible k hk

/-! ### Rows that never go down -/

section Order

variable [PartialOrder M] [CanonicallyOrderedAdd M]

omit [DecidableEq κ] [AddCommMonoid M] [CanonicallyOrderedAdd M] in
theorem optionLE_refl : ∀ o : Option M, o ≤ o
  | none => Option.none_le
  | some v => Option.some_le_some.mpr (le_refl v)

/-- Writing the batch raises rows, it never lowers one. -/
def Rising (p : κ → Prop) (t : AbsoluteTable κ M) : Prop := ∀ k, p k → t.rows k ≤ t.visible k

omit [DecidableEq κ] [AddCommMonoid M] [CanonicallyOrderedAdd M] in
theorem Rising.commit : Rising p t.commit := fun k _ => optionLE_refl (t.visible k)

/-- A snapshot raises rows as long as no key comes back after it was forgotten. -/
theorem Rising.snapshot (hb : ∀ k, p k → t.batch k = none) (h : Inv p base old new t)
    (hfresh : ∀ k, p k → k ∈ new.map Prod.fst → base k = none) : Rising p t.snapshot := by
  intro k hk
  have hold : t.rows k = (cell old k).or (base k) := by
    have hv := h.visible k hk
    unfold AbsoluteTable.visible at hv
    rwa [hb k hk, Option.none_or] at hv
  rw [(h.snapshot hb).visible k hk]
  show t.rows k ≤ _
  rw [hold]
  by_cases hn : k ∈ new.map Prod.fst
  · rw [hfresh k hk hn, Option.or_none, Option.or_none]
    exact cell_le old new k
  · rw [cell_append_of_notMem hn]
    exact optionLE_refl _

end Order

end AbsoluteTable

/-! ## Counters forgotten in the middle of a history -/

section Late

variable [PartialOrder M] [CanonicallyOrderedAdd M] [IsCancelAdd M]

/--
Rows that were last written before `lost`, and from scratch for `late`, hold the
totals exactly when nothing was lost and no key came back.
-/
theorem late_eq_iff {old lost late : List (κ × M)} (hw : ∀ x ∈ old ++ lost ++ late, x.2 ≠ 0)
    (k : κ) : (cell late k).or (cell old k) = cell (old ++ lost ++ late) k ↔
      k ∉ lost.map Prod.fst ∧ (k ∈ late.map Prod.fst → k ∉ old.map Prod.fst) := by
  have hperm : cell (old ++ lost ++ late) k = cell (late ++ (old ++ lost)) k :=
    congrFun (cell_perm List.perm_append_comm) k
  constructor
  · intro h
    by_cases hl : k ∈ late.map Prod.fst
    · obtain ⟨v, hv⟩ := Option.ne_none_iff_exists'.mp (fun hn => cell_eq_none.mp hn hl)
      rw [hv, Option.some_or, ← hv, hperm] at h
      have hnot : k ∉ (old ++ lost).map Prod.fst := fun hm =>
        cell_append_ne (fun x hx => hw x (List.mem_append_left _ hx)) hm h.symm
      rw [List.map_append, List.mem_append, not_or] at hnot
      exact ⟨hnot.2, fun _ => hnot.1⟩
    · refine ⟨fun hlost => ?_, fun hm => absurd hm hl⟩
      rw [cell_eq_none.mpr hl, Option.none_or, cell_append_of_notMem hl] at h
      refine cell_append_ne (fun x hx => hw x ?_) hlost h.symm
      exact List.mem_append_left _ (List.mem_append_right _ hx)
  · intro ⟨hlost, hback⟩
    by_cases hl : k ∈ late.map Prod.fst
    · obtain ⟨v, hv⟩ := Option.ne_none_iff_exists'.mp (fun hn => cell_eq_none.mp hn hl)
      have hnot : k ∉ (old ++ lost).map Prod.fst := by
        rw [List.map_append, List.mem_append, not_or]
        exact ⟨hback hl, hlost⟩
      rw [hperm, cell_append_of_notMem hnot, hv, Option.some_or]
    · rw [cell_append_of_notMem hl, cell_append_of_notMem hlost, cell_eq_none.mpr hl,
        Option.none_or]

end Late

/-! ## Tables of deltas -/

/-- Deltas since the last snapshot, the batch, the rows. -/
@[ext] structure DeltaTable (κ : Type u) (M : Type v) where
  deltas : κ → Option M
  batch : κ → Option M
  rows : κ → Option M

namespace DeltaTable

def add (t : DeltaTable κ M) (a : κ) (x : M) : DeltaTable κ M :=
  { t with deltas := bump t.deltas a x }

/-- All deltas become the batch. -/
def snapshot (t : DeltaTable κ M) : DeltaTable κ M :=
  { t with deltas := fun _ => none, batch := t.deltas }

/-- The batch is added to the rows. -/
def commit (t : DeltaTable κ M) : DeltaTable κ M :=
  { t with rows := fun k => Option.merge (· + ·) (t.rows k) (t.batch k), batch := fun _ => none }

/-- The batch is lost. -/
def rollback (t : DeltaTable κ M) : DeltaTable κ M := { t with batch := fun _ => none }

variable {done flying new : List (κ × M)} {t : DeltaTable κ M}

/-- After the entries `done`, written, `flying`, in the batch, and `new`, since the snapshot. -/
structure Inv (done flying new : List (κ × M)) (t : DeltaTable κ M) : Prop where
  deltas : t.deltas = cell new
  batch : t.batch = cell flying
  rows : t.rows = cell done

theorem Inv.add (a : κ) (x : M) (h : Inv done flying new t) :
    Inv done flying (new ++ [(a, x)]) (t.add a x) where
  deltas := by
    rw [cell_concat, ← h.deltas]
    rfl
  batch := h.batch
  rows := h.rows

theorem Inv.snapshot (h : Inv done [] new t) : Inv done new [] t.snapshot where
  deltas := rfl
  batch := h.deltas
  rows := h.rows

theorem Inv.commit (h : Inv done flying new t) : Inv (done ++ flying) [] new t.commit where
  deltas := h.deltas
  batch := rfl
  rows := by
    funext k
    rw [cell_append, ← h.rows, ← h.batch]
    rfl

theorem Inv.rollback (h : Inv done flying new t) : Inv done [] new t.rollback where
  deltas := h.deltas
  batch := rfl
  rows := h.rows

/-! ### Rows found there -/

/-- What the rows will be once the batch is added. -/
def visible (t : DeltaTable κ M) (k : κ) : Option M :=
  Option.merge (· + ·) (t.rows k) (t.batch k)

/-- The keys in `p`, after `old` before the last snapshot and `new` since, on top of `base`. -/
structure Over (p : κ → Prop) (base : κ → Option M) (old new : List (κ × M))
    (t : DeltaTable κ M) : Prop where
  deltas : ∀ k, p k → t.deltas k = cell new k
  visible : ∀ k, p k → t.visible k = Option.merge (· + ·) (base k) (cell old k)

variable {p : κ → Prop} {base : κ → Option M} {old : List (κ × M)}

theorem Over.add (a : κ) (x : M) (h : Over p base old new t) :
    Over p base old (new ++ [(a, x)]) (t.add a x) where
  deltas k hk := by
    rw [cell_concat]
    unfold DeltaTable.add bump
    dsimp only
    split
    · rename_i hka
      rw [← h.deltas a (hka ▸ hk)]
    · exact h.deltas k hk
  visible := h.visible

theorem Over.snapshot (hb : ∀ k, p k → t.batch k = none) (h : Over p base old new t) :
    Over p base (old ++ new) [] t.snapshot where
  deltas _ _ := rfl
  visible k hk := by
    have hv := h.visible k hk
    unfold DeltaTable.visible at hv ⊢
    rw [hb k hk, Option.merge_none_right] at hv
    show Option.merge (· + ·) (t.rows k) (t.deltas k) = _
    rw [hv, h.deltas k hk, cell_append]
    cases base k <;> cases cell old k <;> cases cell new k <;> simp [add_assoc]

theorem Over.commit (h : Over p base old new t) : Over p base old new t.commit where
  deltas := h.deltas
  visible k hk := by
    show Option.merge (· + ·) (t.visible k) none = _
    rw [Option.merge_none_right]
    exact h.visible k hk

theorem Over.settled (hb : ∀ k, p k → t.batch k = none) (h : Over p base old new t) {k : κ}
    (hk : p k) : t.rows k = Option.merge (· + ·) (base k) (cell old k) := by
  have hv := h.visible k hk
  unfold DeltaTable.visible at hv
  rwa [hb k hk, Option.merge_none_right] at hv

/-- No delta and nothing in the batch for the keys in `p`. -/
structure Calm (p : κ → Prop) (t : DeltaTable κ M) : Prop where
  deltas : ∀ k, p k → t.deltas k = none
  batch : ∀ k, p k → t.batch k = none

theorem Calm.add (h : Calm p t) {a : κ} (ha : ¬ p a) (x : M) : Calm p (t.add a x) where
  deltas k hk := by
    have hka : k ≠ a := fun hka => ha (hka ▸ hk)
    exact (if_neg hka).trans (h.deltas k hk)
  batch := h.batch

omit [DecidableEq κ] [AddCommMonoid M] in
theorem Calm.snapshot (h : Calm p t) : Calm p t.snapshot := ⟨fun _ _ => rfl, h.deltas⟩

omit [DecidableEq κ] in
theorem Calm.commit (h : Calm p t) : Calm p t.commit := ⟨h.deltas, fun _ _ => rfl⟩

omit [DecidableEq κ] in
theorem Calm.commit_rows (h : Calm p t) {k : κ} (hk : p k) : t.commit.rows k = t.rows k := by
  show Option.merge (· + ·) (t.rows k) (t.batch k) = t.rows k
  rw [h.batch k hk, Option.merge_none_right]

omit [DecidableEq κ] [AddCommMonoid M] in
theorem Calm.rollback (h : Calm p t) : Calm p t.rollback := ⟨h.deltas, fun _ _ => rfl⟩

theorem Over.calm (hb : ∀ k, p k → t.batch k = none) (h : Over p base old [] t) : Calm p t :=
  ⟨h.deltas, hb⟩

/-- Keys nobody has written yet. -/
theorem over_init (h : Calm p t) : Over p t.rows [] [] t where
  deltas := h.deltas
  visible k hk := by
    show Option.merge (· + ·) (t.rows k) (t.batch k) = _
    rw [h.batch k hk]
    rfl

theorem Over.congr_rows {rows : κ → Option M} (hrows : ∀ k, p k → rows k = t.rows k)
    (h : Over p base old new t) : Over p base old new { t with rows := rows } where
  deltas := h.deltas
  visible k hk := by
    show Option.merge (· + ·) (rows k) (t.batch k) = _
    rw [hrows k hk]
    exact h.visible k hk

end DeltaTable

end WriteBack
