import Mathlib.Data.List.Perm.Basic
import Etherchimp.Lib.Cut

/-!
# Evicting a few entries at a time

A table of values stored under their own keys is swept: of the values that may go, the
first few in a fixed order are dropped. The order leaves no two values tied, so what is
dropped does not depend on how the table is ranged over or sorted: the values that have
fewer than `cap` others before them. What is left of the queue is its tail, and so a
queue of `s` is gone after exactly `s / cap` sweeps, rounded up.
-/

namespace Eviction

variable {κ α : Type} [DecidableEq κ]

/-- Every value is stored under its own key. -/
def Keyed (key : α → κ) (t : KeyedMap κ α) : Prop := ∀ k v, t.lookup k = some v → key v = k

/-- An order in which only values of one key are tied. -/
structure Ordered (key : α → κ) (less : α → α → Bool) : Prop where
  preorders : Preorders less
  ties : ∀ a b, less a b = false → less b a = false → key a = key b

/-- The values that may go, in the order they go. -/
def queue (go : Runtime) (less : α → α → Bool) (p : α → Bool) (t : KeyedMap κ α) : List α :=
  go.sortSlice less (((go.rangeOf t).map fun e => e.2).filter p)

/-- Drop the first `cap` of them. -/
def sweep (go : Runtime) (key : α → κ) (less : α → α → Bool) (p : α → Bool) (cap : Nat)
    (t : KeyedMap κ α) : KeyedMap κ α :=
  KeyedMap.eraseAll t (((queue go less p t).take cap).map key)

/-- How many of the values that may go are before this one. -/
def ahead (less : α → α → Bool) (p : α → Bool) (t : KeyedMap κ α) (v : α) : Nat :=
  (t.entries.map fun e => e.2).countP fun w => p w && less w v

variable {go go' : Runtime} {key : α → κ} {less : α → α → Bool} {p : α → Bool} {cap : Nat}
  {t : KeyedMap κ α} {v : α}

omit [DecidableEq κ] in
theorem Ordered.irrefl (ho : Ordered key less) (a : α) : less a a = false :=
  ho.preorders.irrefl a

/-! ## The queue -/

theorem mem_queue (go : Runtime) (less : α → α → Bool) (p : α → Bool) (hk : Keyed key t) :
    v ∈ queue go less p t ↔ t.lookup (key v) = some v ∧ p v = true := by
  unfold queue
  rw [go.mem_sortSlice, List.mem_filter, List.mem_map]
  refine and_congr_left fun _ => ⟨?_, fun h => ⟨⟨key v, v⟩, go.mem_rangeOf.mpr h, rfl⟩⟩
  rintro ⟨e, he, rfl⟩
  have hl := go.mem_rangeOf.mp he
  rw [hk e.1 e.2 hl]
  exact hl

theorem queue_nodup (go : Runtime) (less : α → α → Bool) (p : α → Bool) (hk : Keyed key t) :
    ((queue go less p t).map key).Nodup := by
  have hkeys : ((go.rangeOf t).map fun e => e.2).map key = (go.rangeOf t).map fun e => e.1 := by
    rw [List.map_map]
    exact List.map_congr_left fun e he => hk e.1 e.2 (go.mem_rangeOf.mp he)
  have hnd : (((go.rangeOf t).map fun e => e.2).map key).Nodup := by
    rw [hkeys]
    exact ((go.rangeOf_perm t).map _).nodup_iff.mpr (AList.keys_nodup t)
  unfold queue
  rw [((go.sortSlice_perm less _).map key).nodup_iff]
  exact hnd.sublist (List.filter_sublist.map key)

omit [DecidableEq κ] in
theorem queue_sorted (go : Runtime) (p : α → Bool) (ho : Ordered key less) (t : KeyedMap κ α) :
    (queue go less p t).Pairwise fun a b => less b a = false :=
  go.sortSlice_sorted ho.preorders _

omit [DecidableEq κ] in
/-- Two sorted lists without ties and of the same values are one list. -/
theorem eq_of_mem_iff (ho : Ordered key less) {l l' : List α}
    (hl : l.Pairwise fun a b => less b a = false) (hl' : l'.Pairwise fun a b => less b a = false)
    (hnd : (l.map key).Nodup) (hnd' : (l'.map key).Nodup) (h : ∀ a, a ∈ l ↔ a ∈ l') : l = l' := by
  have hperm : l.Perm l' :=
    (List.perm_ext_iff_of_nodup (List.Nodup.of_map key hnd) (List.Nodup.of_map key hnd')).mpr h
  refine hperm.eq_of_pairwise ?_ hl hl'
  intro a b ha hb hba hab
  exact List.inj_on_of_nodup_map hnd ha ((h b).mpr hb) (ho.ties a b hab hba)

/-- The queue depends on the table only. -/
theorem queue_eq (go go' : Runtime) (p : α → Bool) (ho : Ordered key less) (hk : Keyed key t) :
    queue go less p t = queue go' less p t :=
  eq_of_mem_iff ho (queue_sorted go p ho t) (queue_sorted go' p ho t) (queue_nodup go less p hk)
    (queue_nodup go' less p hk) fun _ => (mem_queue go less p hk).trans (mem_queue go' less p hk).symm

omit [DecidableEq κ] in
theorem length_queue (t : KeyedMap κ α) :
    (queue go less p t).length = t.entries.countP fun e => p e.2 := by
  unfold queue
  rw [go.length_sortSlice, ← List.countP_eq_length_filter, List.countP_map]
  exact (go.rangeOf_perm t).countP_eq _

omit [DecidableEq κ] in
theorem countP_queue (go : Runtime) (t : KeyedMap κ α) (v : α) :
    (queue go less p t).countP (fun w => less w v) = ahead less p t v := by
  unfold queue ahead
  rw [(go.sortSlice_perm less _).countP_eq, List.countP_filter,
    ((go.rangeOf_perm t).map fun e => e.2).countP_eq]
  refine List.countP_congr fun w _ => ?_
  rw [Bool.and_comm]

/-- **What is at the front** has fewer than `cap` values before it. -/
theorem mem_take_queue (ho : Ordered key less) (hk : Keyed key t) : v ∈ (queue go less p t).take cap
    ↔ t.lookup (key v) = some v ∧ p v = true ∧ ahead less p t v < cap := by
  rw [← countP_queue go t v, ← and_assoc, ← mem_queue go less p hk]
  constructor
  · intro hv
    exact ⟨List.mem_of_mem_take hv, Cut.countP_lt_of_take (queue_sorted go p ho t) (ho.irrefl v) hv⟩
  · rintro ⟨hv, hlt⟩
    by_contra hnot
    have hdrop : v ∈ (queue go less p t).drop cap := by
      rw [← List.take_append_drop cap (queue go less p t), List.mem_append] at hv
      exact hv.resolve_left hnot
    -- everything kept comes before it
    have hless : ∀ b ∈ (queue go less p t).take cap, less b v = true := by
      intro b hb
      by_contra hbv
      rw [Bool.not_eq_true] at hbv
      have hs := queue_sorted go p ho t
      rw [← List.take_append_drop cap (queue go less p t), List.pairwise_append] at hs
      have htie := ho.ties b v hbv (hs.2.2 b hb v hdrop)
      have hbq := (mem_queue go less p hk).mp (List.mem_of_mem_take hb)
      have hvq := (mem_queue go less p hk).mp hv
      rw [htie, hvq.1, Option.some.injEq] at hbq
      exact hnot (hbq.1 ▸ hb)
    have hle := Cut.le_countP_of_drop hdrop hless
    omega

/-! ## One sweep -/

/-- What one sweep of `t` leaves, and how many it says it dropped. -/
structure Swept (less : α → α → Bool) (p : α → Bool) (cap : Nat) (t t' : KeyedMap κ α) (n : Nat) :
    Prop where
  count : n = min cap (t.entries.countP fun e => p e.2)
  size : t.keys.length = t'.keys.length + n
  gone : ∀ k v, t.lookup k = some v → (t'.lookup k = none ↔ p v = true ∧ ahead less p t v < cap)
  kept : ∀ k v, t'.lookup k = some v → t.lookup k = some v

/-- Dropping as many distinct keys that are there makes the table as much smaller. -/
theorem length_keys_eraseAll {ks : List κ} (hnd : ks.Nodup) (hin : ∀ k ∈ ks, k ∈ t.keys) :
    t.keys.length = (KeyedMap.eraseAll t ks).keys.length + ks.length := by
  induction ks generalizing t with
  | nil => rfl
  | cons k ks ih =>
    rw [List.nodup_cons] at hnd
    obtain ⟨v, hv⟩ := (KeyedMap.mem_keys_iff t k).mp (hin k List.mem_cons_self)
    have hlen := KeyedMap.length_keys_erase hv
    have hpos := List.length_pos_of_mem (hin k List.mem_cons_self)
    have hin' : ∀ k' ∈ ks, k' ∈ (t.erase k).keys := by
      intro k' hk'
      have hne : k' ≠ k := fun he => hnd.1 (he ▸ hk')
      rw [AList.keys_erase, List.mem_erase_of_ne hne]
      exact hin k' (List.mem_cons_of_mem k hk')
    have hrest := ih hnd.2 hin'
    show t.keys.length = (KeyedMap.eraseAll (t.erase k) ks).keys.length + (ks.length + 1)
    omega

/-- A value is dropped when it is at the front of the queue. -/
theorem lookup_sweep_eq_none (hk : Keyed key t) {k : κ} (hv : t.lookup k = some v) :
    (sweep go key less p cap t).lookup k = none ↔ v ∈ (queue go less p t).take cap := by
  have hfront : k ∈ ((queue go less p t).take cap).map key ↔ v ∈ (queue go less p t).take cap := by
    rw [List.mem_map]
    refine ⟨?_, fun hm => ⟨v, hm, hk k v hv⟩⟩
    rintro ⟨w, hw, rfl⟩
    have hl := ((mem_queue go less p hk).mp (List.mem_of_mem_take hw)).1
    rw [hv, Option.some.injEq] at hl
    exact hl ▸ hw
  unfold sweep
  rw [KeyedMap.lookup_eraseAll, ← hfront, hv]
  simp

theorem lookup_of_sweep {k : κ} (hv : (sweep go key less p cap t).lookup k = some v) :
    t.lookup k = some v := by
  unfold sweep at hv
  rw [KeyedMap.lookup_eraseAll] at hv
  split at hv
  · cases hv
  · exact hv

/-- A value that is not at the front stays. -/
theorem lookup_sweep (hk : Keyed key t) {k : κ} (hv : t.lookup k = some v)
    (hm : v ∉ (queue go less p t).take cap) : (sweep go key less p cap t).lookup k = some v := by
  cases hl : (sweep go key less p cap t).lookup k with
  | none => exact absurd ((lookup_sweep_eq_none hk hv).mp hl) hm
  | some w => rw [← hv, lookup_of_sweep hl]

theorem Keyed.sweep (hk : Keyed key t) : Keyed key (sweep go key less p cap t) :=
  fun k v hv => hk k v (lookup_of_sweep hv)

/-- **One sweep drops the first few and nothing else.** -/
theorem swept (ho : Ordered key less) (hk : Keyed key t) :
    Swept less p cap t (sweep go key less p cap t) ((queue go less p t).take cap).length where
  count := by rw [List.length_take, length_queue]
  size := by
    unfold sweep
    have hlen := @length_keys_eraseAll κ α _ t (((queue go less p t).take cap).map key)
    rw [List.length_map] at hlen
    refine hlen ?_ ?_
    · exact (queue_nodup go less p hk).sublist ((List.take_sublist cap _).map key)
    · intro k hkm
      obtain ⟨w, hw, rfl⟩ := List.mem_map.mp hkm
      exact (KeyedMap.mem_keys_iff t _).mpr
        ⟨w, ((mem_queue go less p hk).mp (List.mem_of_mem_take hw)).1⟩
  gone k v hv := by
    rw [lookup_sweep_eq_none hk hv, mem_take_queue ho hk, hk k v hv]
    exact and_iff_right hv
  kept k v hv := lookup_of_sweep hv

/-! ## Sweep after sweep -/

/-- **A sweep leaves the tail of the queue.** -/
theorem queue_sweep (go go' : Runtime) (ho : Ordered key less) (hk : Keyed key t) :
    queue go' less p (sweep go key less p cap t) = (queue go less p t).drop cap := by
  have hsplit := queue_nodup go less p hk
  refine eq_of_mem_iff ho (queue_sorted go' p ho _)
    ((queue_sorted go p ho t).sublist (List.drop_sublist cap _)) (queue_nodup go' less p hk.sweep) (hsplit.sublist ((List.drop_sublist cap _).map key)) fun a => ?_
  rw [mem_queue go' less p hk.sweep]
  have hmem := mem_queue (v := a) go less p hk
  have hnd := List.Nodup.of_map key hsplit
  rw [← List.take_append_drop cap (queue go less p t), List.nodup_append] at hnd
  constructor
  · rintro ⟨hl, hp⟩
    have ht := lookup_of_sweep hl
    have hq := hmem.mpr ⟨ht, hp⟩
    rw [← List.take_append_drop cap (queue go less p t), List.mem_append] at hq
    refine hq.resolve_left fun htake => ?_
    rw [(lookup_sweep_eq_none hk ht).mpr htake] at hl
    cases hl
  · intro hd
    have hq := hmem.mp (List.mem_of_mem_drop hd)
    exact ⟨lookup_sweep hk hq.1 fun htake => hnd.2.2 a htake a hd rfl, hq.2⟩

/-- Some sweeps, each by its own runtime and with its own view of what may go. -/
def sweeps (key : α → κ) (less : α → α → Bool) (cap : Nat) (t : KeyedMap κ α)
    (l : List (Runtime × (α → Bool))) : KeyedMap κ α :=
  l.foldl (fun t s => sweep s.1 key less s.2 cap t) t

variable {l : List (Runtime × (α → Bool))}

/-- What is left after some sweeps that agree on what may go. -/
theorem queue_sweeps (cap : Nat) (go : Runtime) (ho : Ordered key less) (hk : Keyed key t)
    (hsame : ∀ s ∈ l, ∀ k v, t.lookup k = some v → s.2 v = p v) :
    Keyed key (sweeps key less cap t l)
      ∧ (∀ k v, (sweeps key less cap t l).lookup k = some v → t.lookup k = some v)
      ∧ (∀ k v, t.lookup k = some v → p v = false → (sweeps key less cap t l).lookup k = some v)
      ∧ queue go less p (sweeps key less cap t l) = (queue go less p t).drop (cap * l.length) := by
  induction l using List.reverseRecOn with
  | nil => exact ⟨hk, fun _ _ h => h, fun _ _ h _ => h, by simp [sweeps]⟩
  | append_singleton l s ih =>
    obtain ⟨hk', hsub, hstay, hq⟩ := ih fun s' hs' => hsame s' (List.mem_append_left _ hs')
    have hs := hsame s (List.mem_append_right _ List.mem_cons_self)
    unfold sweeps at hk' hsub hstay hq ⊢
    rw [List.foldl_append, List.foldl_cons, List.foldl_nil]
    generalize l.foldl (fun t s => sweep s.1 key less s.2 cap t) t = u at hk' hsub hstay hq
    -- this sweep's view is the same on what is left
    have hqueue : queue s.1 less s.2 u = queue s.1 less p u := by
      unfold queue
      congr 1
      refine List.filter_congr fun v hv => ?_
      obtain ⟨e, he, rfl⟩ := List.mem_map.mp hv
      exact hs e.1 e.2 (hsub e.1 e.2 (s.1.mem_rangeOf.mp he))
    have hsweep : sweep s.1 key less s.2 cap u = sweep s.1 key less p cap u := by
      unfold sweep
      rw [hqueue]
    rw [hsweep]
    refine ⟨hk'.sweep, fun k v hv => hsub k v (lookup_of_sweep hv), fun k v hv hp => ?_, ?_⟩
    · refine lookup_sweep hk' (hstay k v hv hp) fun hm => ?_
      have hpv := ((mem_queue s.1 less p hk').mp (List.mem_of_mem_take hm)).2
      rw [hp] at hpv
      cases hpv
    · rw [queue_sweep s.1 go ho hk', queue_eq s.1 go p ho hk', hq, List.drop_drop, List.length_append,
        List.length_singleton, Nat.mul_succ]

/-- **A queue of `s` is gone after exactly `s / cap` sweeps, rounded up.** -/
theorem drained_iff (ho : Ordered key less) (hk : Keyed key t) (hcap : 0 < cap)
    (hsame : ∀ s ∈ l, ∀ k v, t.lookup k = some v → s.2 v = p v) :
    (∀ k v, (sweeps key less cap t l).lookup k = some v → p v = false)
      ↔ ((t.entries.countP fun e => p e.2) + (cap - 1)) / cap ≤ l.length := by
  obtain ⟨hk', -, -, hq⟩ := queue_sweeps cap Runtime.stable ho hk hsame
  have hempty : (∀ k v, (sweeps key less cap t l).lookup k = some v → p v = false)
      ↔ queue Runtime.stable less p (sweeps key less cap t l) = [] := by
    rw [List.eq_nil_iff_forall_not_mem]
    constructor
    · intro h v hv
      obtain ⟨hl, hp⟩ := (mem_queue Runtime.stable less p hk').mp hv
      rw [h _ v hl] at hp
      cases hp
    · intro h k v hv
      by_contra hp
      rw [Bool.not_eq_false] at hp
      exact h v ((mem_queue Runtime.stable less p hk').mpr ⟨by rw [hk' k v hv]; exact hv, hp⟩)
  rw [hempty, hq, List.drop_eq_nil_iff, length_queue, Nat.div_le_iff_le_mul_add_pred hcap]
  omega

end Eviction
