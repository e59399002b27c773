import Etherchimp.Lib.KeyedMap

/-!
# Delta streams

A producer is given one list of entries after another, each entry under a key. It
compares every list with the one before and ships the entries that are new or not
the same, and the keys that are gone. A mirror writes the entries it is sent and
deletes the keys.

What the mirror holds under a key need not be the entry: it may be any projection
of it, and it may lag behind as long as the producer calls the two the same.
`mirror_step` is the one rule for all of these.
-/

universe u v w

namespace Delta

variable {κ : Type u} {ν : Type v} {ω : Type w} [DecidableEq κ]

/-! ## The producer -/

/-- What one comparison ships, and what the next one compares with. -/
structure Diff (κ : Type u) (ν : Type v) where
  changed : List ν
  removed : List κ
  last : KeyedMap κ ν

/-- Whether an entry is new or not the same as the one recorded. -/
def ships (key : ν → κ) (same : ν → ν → Bool) (full : Bool) (last : KeyedMap κ ν) (x : ν) : Bool :=
  full || !(last.lookup (key x)).any fun prev => same prev x

/-- Visit one entry: record it, and ship it unless it is the same as the last one there. -/
def visit (key : ν → κ) (same : ν → ν → Bool) (full : Bool) (s : KeyedMap κ ν × List ν) (x : ν) :
    KeyedMap κ ν × List ν :=
  (s.1.insert (key x) x, if ships key same full s.1 x then s.2 ++ [x] else s.2)

/-- Compare a list with the entries recorded from the one before. -/
def diff (key : ν → κ) (same : ν → ν → Bool) (full : Bool) (last : KeyedMap κ ν) (view : List ν) :
    Diff κ ν :=
  let s := view.foldl (visit key same full) (last, [])
  let keys := view.map key
  { changed := s.2
    removed := s.1.keys.filter fun k => k ∉ keys
    last := s.1.filterKey fun k => k ∈ keys }

/-- The map holds exactly the entries of the list. -/
def Holds (key : ν → κ) (view : List ν) (m : KeyedMap κ ν) : Prop :=
  ∀ k x, m.lookup k = some x ↔ x ∈ view ∧ key x = k

section Producer

variable {key : ν → κ} {same : ν → ν → Bool} {full : Bool} {last : KeyedMap κ ν} {view : List ν}

theorem Holds.lookup {m : KeyedMap κ ν} (h : Holds key view m) {x : ν} (hx : x ∈ view) :
    m.lookup (key x) = some x := (h (key x) x).mpr ⟨hx, rfl⟩

theorem Holds.lookup_none {m : KeyedMap κ ν} (h : Holds key view m) {k : κ}
    (hk : k ∉ view.map key) : m.lookup k = none := by
  rw [Option.eq_none_iff_forall_ne_some]
  intro x hl
  obtain ⟨hx, rfl⟩ := (h k x).mp hl
  exact hk (List.mem_map_of_mem hx)

variable (same full last) in
/-- The loop over the list, with the entries already visited in front. -/
theorem visit_foldl (hnd : (view.map key).Nodup) (s : KeyedMap κ ν × List ν)
    (hs : ∀ x ∈ view, s.1.lookup (key x) = last.lookup (key x)) :
    (view.foldl (visit key same full) s).2
        = s.2 ++ view.filter (ships key same full last)
      ∧ (∀ x ∈ view, (view.foldl (visit key same full) s).1.lookup (key x) = some x)
      ∧ ∀ k ∉ view.map key, (view.foldl (visit key same full) s).1.lookup k = s.1.lookup k := by
  induction view generalizing s with
  | nil => exact ⟨(List.append_nil _).symm, by simp, fun _ _ => rfl⟩
  | cons x view ih =>
    rw [List.map_cons, List.nodup_cons] at hnd
    have hrest : ∀ y ∈ view, (visit key same full s x).1.lookup (key y) = last.lookup (key y) := by
      intro y hy
      have hne : key y ≠ key x := fun he => hnd.1 (he ▸ List.mem_map_of_mem hy)
      rw [← hs y (List.mem_cons_of_mem _ hy)]
      exact AList.lookup_insert_ne hne
    obtain ⟨hchanged, hin, hout⟩ := ih hnd.2 (visit key same full s x) hrest
    rw [List.foldl_cons]
    refine ⟨?_, ?_, ?_⟩
    · have hships : ships key same full s.1 x = ships key same full last x := by
        unfold ships
        rw [hs x (List.mem_cons_self ..)]
      rw [hchanged, List.filter_cons, ← hships]
      unfold visit
      dsimp only
      split
      · rw [List.append_assoc, List.singleton_append]
      · rfl
    · intro y hy
      rcases List.mem_cons.mp hy with rfl | hy
      · rw [hout (key y) hnd.1]
        exact AList.lookup_insert _
      · exact hin y hy
    · intro k hk
      rw [List.map_cons, List.mem_cons, not_or] at hk
      rw [hout k hk.2]
      exact AList.lookup_insert_ne hk.1

/-- **What is shipped**: the entries with no counterpart that is the same. -/
theorem diff_changed (hnd : (view.map key).Nodup) :
    (diff key same full last view).changed = view.filter (ships key same full last) :=
  (visit_foldl same full last hnd (last, []) fun _ _ => rfl).1

/-- An entry that is not shipped has a predecessor that is the same. -/
theorem of_ships_eq_false {x : ν} (h : ships key same full last x = false) :
    ∃ prev, last.lookup (key x) = some prev ∧ same prev x = true := by
  unfold ships at h
  rw [Bool.or_eq_false_iff, Bool.not_eq_false', Option.any_eq_true] at h
  exact h.2

/-- **What the next comparison starts from**: the list itself. -/
theorem diff_last (hnd : (view.map key).Nodup) :
    Holds key view (diff key same full last view).last := by
  obtain ⟨-, hin, -⟩ := visit_foldl same full last hnd (last, []) fun _ _ => rfl
  intro k x
  unfold diff
  dsimp only
  rw [KeyedMap.lookup_filterKey]
  by_cases hk : k ∈ view.map key
  · rw [decide_eq_true hk, if_pos rfl]
    obtain ⟨y, hy, rfl⟩ := List.mem_map.mp hk
    rw [hin y hy, Option.some.injEq]
    constructor
    · rintro rfl
      exact ⟨hy, rfl⟩
    · intro hx
      exact (List.inj_on_of_nodup_map hnd hx.1 hy hx.2).symm
  · rw [decide_eq_false hk]
    constructor
    · intro h
      cases h
    · intro hx
      exact absurd (hx.2 ▸ List.mem_map_of_mem hx.1) hk

/-- **What is deleted**: the keys that were there and are no longer. -/
theorem mem_diff_removed (hnd : (view.map key).Nodup) {k : κ} :
    k ∈ (diff key same full last view).removed
      ↔ k ∉ view.map key ∧ ∃ x, last.lookup k = some x := by
  obtain ⟨-, -, hout⟩ := visit_foldl same full last hnd (last, []) fun _ _ => rfl
  unfold diff
  dsimp only
  rw [List.mem_filter, decide_eq_true_iff, KeyedMap.mem_keys_iff, and_comm]
  exact and_congr_right fun hk => by rw [hout k hk]

end Producer

/-! ## The mirror -/

/-- Write what is listed. -/
def upsert (key : ν → κ) (f : ν → ω) (m : KeyedMap κ ω) (l : List ν) : KeyedMap κ ω :=
  l.foldl (fun m x => m.insert (key x) (f x)) m

section Mirror

variable {key : ν → κ} {f : ν → ω} {m : KeyedMap κ ω} {l : List ν}

theorem upsert_append (m : KeyedMap κ ω) (l l' : List ν) :
    upsert key f m (l ++ l') = upsert key f (upsert key f m l) l' := List.foldl_append ..

theorem upsert_lookup_of_notMem {k : κ} (hk : k ∉ l.map key) :
    (upsert key f m l).lookup k = m.lookup k := by
  induction l generalizing m with
  | nil => rfl
  | cons x l ih =>
    rw [List.map_cons, List.mem_cons, not_or] at hk
    refine (ih hk.2).trans ?_
    exact AList.lookup_insert_ne hk.1

theorem upsert_lookup_of_mem (hnd : (l.map key).Nodup) {x : ν} (hx : x ∈ l) :
    (upsert key f m l).lookup (key x) = some (f x) := by
  induction l generalizing m with
  | nil => cases hx
  | cons y l ih =>
    rw [List.map_cons, List.nodup_cons] at hnd
    rcases List.mem_cons.mp hx with rfl | hx
    · exact (upsert_lookup_of_notMem hnd.1).trans (AList.lookup_insert _)
    · exact ih hnd.2 hx

theorem upsert_exists_iff {k : κ} :
    (∃ y, (upsert key f m l).lookup k = some y) ↔ k ∈ l.map key ∨ ∃ y, m.lookup k = some y := by
  induction l generalizing m with
  | nil => simp [upsert]
  | cons x l ih =>
    have hstep : upsert key f m (x :: l) = upsert key f (m.insert (key x) (f x)) l := rfl
    rw [hstep, ih, KeyedMap.lookup_insert_eq, List.map_cons, List.mem_cons]
    by_cases hk : k = key x
    · simp [hk]
    · simp [hk]

/-- What a write does under one key depends on the map under that key alone. -/
theorem upsert_congr {m' : KeyedMap κ ω} {k : κ} (h : m.lookup k = m'.lookup k) :
    (upsert key f m l).lookup k = (upsert key f m' l).lookup k := by
  induction l generalizing m m' with
  | nil => exact h
  | cons x l ih =>
    refine ih ?_
    rw [KeyedMap.lookup_insert_eq, KeyedMap.lookup_insert_eq, h]

/-- Write what is listed, then delete what is gone. -/
def receive (key : ν → κ) (f : ν → ω) (m : KeyedMap κ ω) (d : List ν × List κ) : KeyedMap κ ω :=
  KeyedMap.eraseAll (upsert key f m d.1) d.2

/-- Several messages that delete nothing they list come to one. -/
theorem receive_foldl (msgs : List (List ν × List κ)) (m : KeyedMap κ ω)
    (hdisj : ∀ k ∈ (msgs.map Prod.snd).flatten, k ∉ (msgs.map Prod.fst).flatten.map key) (k : κ) :
    (msgs.foldl (receive key f) m).lookup k
      = if k ∈ (msgs.map Prod.snd).flatten then none
        else (upsert key f m (msgs.map Prod.fst).flatten).lookup k := by
  induction msgs generalizing m with
  | nil => rfl
  | cons d msgs ih =>
    simp only [List.map_cons, List.flatten_cons, List.mem_append, List.map_append, not_or] at hdisj
    have hhead : (receive key f m d).lookup k
        = if k ∈ d.2 then none else (upsert key f m d.1).lookup k := KeyedMap.lookup_eraseAll ..
    rw [List.foldl_cons, ih _ fun k hk => (hdisj k (Or.inr hk)).2]
    simp only [List.map_cons, List.flatten_cons, List.mem_append]
    by_cases hrest : k ∈ (msgs.map Prod.snd).flatten
    · rw [if_pos hrest, if_pos (Or.inr hrest)]
    · rw [if_neg hrest, upsert_append]
      by_cases hk : k ∈ d.2
      · -- deleted by the first message and listed by none
        rw [if_pos (Or.inl hk), upsert_lookup_of_notMem (hdisj k (Or.inl hk)).2, hhead, if_pos hk]
      · rw [if_neg (by simp [hk, hrest])]
        refine upsert_congr ?_
        rw [hhead, if_neg hk]

end Mirror

/-! ## The mirror follows the producer -/

section Follow

variable {key : ν → κ} {same : ν → ν → Bool} {full : Bool} {last : KeyedMap κ ν} {view : List ν}
  {R : κ → ω → ν → Prop} {m m' : KeyedMap κ ω}

/--
**One step of the stream.** The mirror was related to the last list entry by entry.
It is related to the next one when a listed entry is related to what the mirror
writes for it, and an entry that is not listed to what its predecessor was.
-/
theorem mirror_step (hnd : (view.map key).Nodup) (hm : KeyedMap.Related R m last)
    (hlisted : ∀ x ∈ (diff key same full last view).changed,
      ∃ y, m'.lookup (key x) = some y ∧ R (key x) y x)
    (hkept : ∀ x ∈ view, x ∉ (diff key same full last view).changed →
      m'.lookup (key x) = m.lookup (key x))
    (hgone : ∀ k ∉ view.map key, m'.lookup k = if k ∈ (diff key same full last view).removed then none
      else m.lookup k)
    (hsame : ∀ k y prev x, R k y prev → same prev x = true → R k y x) :
    KeyedMap.Related R m' (diff key same full last view).last := by
  have hlast : Holds key view (diff key same full last view).last := diff_last hnd
  intro k
  by_cases hk : k ∈ view.map key
  · obtain ⟨x, hx, rfl⟩ := List.mem_map.mp hk
    rw [hlast.lookup hx]
    by_cases hc : x ∈ (diff key same full last view).changed
    · obtain ⟨y, hy, hr⟩ := hlisted x hc
      rw [hy]
      exact Option.Rel.some hr
    · -- not listed: there was a predecessor, and it is the same
      rw [hkept x hx hc]
      rw [diff_changed hnd, List.mem_filter, not_and, Bool.not_eq_true] at hc
      obtain ⟨prev, hl, hs⟩ := of_ships_eq_false (hc hx)
      obtain ⟨y, hy, hr⟩ : ∃ y, m.lookup (key x) = some y ∧ R (key x) y prev := hm.lookup hl
      rw [hy]
      exact Option.Rel.some (hsame _ _ _ _ hr hs)
  · rw [hgone k hk, hlast.lookup_none hk]
    by_cases hr : k ∈ (diff key same full last view).removed
    · rw [if_pos hr]
      exact Option.Rel.none
    · rw [if_neg hr]
      have hnone : last.lookup k = none := by
        rw [mem_diff_removed hnd, not_and] at hr
        rw [Option.eq_none_iff_forall_ne_some]
        exact fun x hl => hr hk ⟨x, hl⟩
      have hrel := hm k
      rw [hnone] at hrel
      cases hm' : m.lookup k with
      | none => exact Option.Rel.none
      | some y => rw [hm'] at hrel; cases hrel

/-- One step, for a mirror that writes what is listed, in any order, and deletes what is gone. -/
theorem mirror_receive {f : ν → ω} {l : List ν} (hnd : (view.map key).Nodup)
    (hm : KeyedMap.Related R m last) (hp : l.Perm (diff key same full last view).changed)
    (hl : ∀ k, m'.lookup k = if k ∈ (diff key same full last view).removed then none
      else (upsert key f m l).lookup k)
    (hlisted : ∀ x, R (key x) (f x) x)
    (hsame : ∀ k y prev x, R k y prev → same prev x = true → R k y x) :
    KeyedMap.Related R m' (diff key same full last view).last := by
  have hsub : ∀ x ∈ l, x ∈ view := by
    intro x hx
    rw [hp.mem_iff, diff_changed hnd] at hx
    exact (List.mem_filter.mp hx).1
  have hndl : (l.map key).Nodup := by
    rw [(hp.map key).nodup_iff, diff_changed hnd]
    exact hnd.sublist (List.filter_sublist.map key)
  have hin : ∀ x ∈ view, key x ∉ (diff key same full last view).removed :=
    fun x hx hr => ((mem_diff_removed hnd).mp hr).1 (List.mem_map_of_mem hx)
  refine mirror_step (m := m) hnd hm ?_ ?_ ?_ hsame
  · intro x hx
    have hx := hp.mem_iff.mpr hx
    refine ⟨f x, ?_, hlisted x⟩
    rw [hl, if_neg (hin x (hsub x hx)), upsert_lookup_of_mem hndl hx]
  · intro x hx hc
    rw [hl, if_neg (hin x hx), upsert_lookup_of_notMem]
    intro hk
    obtain ⟨y, hy, he⟩ := List.mem_map.mp hk
    rw [List.inj_on_of_nodup_map hnd (hsub y hy) hx he] at hy
    exact hc (hp.mem_iff.mp hy)
  · intro k hk
    rw [hl]
    refine if_congr Iff.rfl rfl (upsert_lookup_of_notMem fun hk' => ?_)
    obtain ⟨y, hy, rfl⟩ := List.mem_map.mp hk'
    exact hk (List.mem_map_of_mem (hsub y hy))

end Follow

/-! ## Refreshing a projection

The second kind of stream ships one value of each entry, and only where it is no
longer the value recorded as shipped. `stale` says when, given what is recorded.
-/

/-- Visit one entry: when its value is stale, record the new one and ship the entry. -/
def touch (key : ν → κ) (val : ν → ω) (stale : Option ω → ω → Bool) (s : KeyedMap κ ω × List ν)
    (x : ν) : KeyedMap κ ω × List ν :=
  if stale (s.1.lookup (key x)) (val x) then (s.1.insert (key x) (val x), s.2 ++ [x]) else s

/-- The entries to ship, and what is recorded afterwards: keys not listed are forgotten. -/
def refresh (key : ν → κ) (val : ν → ω) (stale : Option ω → ω → Bool) (last : KeyedMap κ ω)
    (view : List ν) : List ν × KeyedMap κ ω :=
  let s := view.foldl (touch key val stale) (last, [])
  (s.2, s.1.filterKey fun k => k ∈ view.map key)

section Refresh

variable {key : ν → κ} {val : ν → ω} {stale : Option ω → ω → Bool} {last : KeyedMap κ ω}
  {view : List ν}

variable (val stale last) in
theorem touch_foldl (hnd : (view.map key).Nodup) (s : KeyedMap κ ω × List ν)
    (hs : ∀ x ∈ view, s.1.lookup (key x) = last.lookup (key x)) :
    (view.foldl (touch key val stale) s).2
        = s.2 ++ view.filter (fun x => stale (last.lookup (key x)) (val x))
      ∧ (∀ x ∈ view, (view.foldl (touch key val stale) s).1.lookup (key x)
          = if stale (last.lookup (key x)) (val x) then some (val x) else last.lookup (key x))
      ∧ ∀ k ∉ view.map key, (view.foldl (touch key val stale) s).1.lookup k = s.1.lookup k := by
  induction view generalizing s with
  | nil => exact ⟨(List.append_nil _).symm, by simp, fun _ _ => rfl⟩
  | cons x view ih =>
    rw [List.map_cons, List.nodup_cons] at hnd
    have hx := hs x (List.mem_cons_self ..)
    have hother : ∀ k, k ≠ key x → (touch key val stale s x).1.lookup k = s.1.lookup k := by
      intro k hk
      unfold touch
      split
      · exact AList.lookup_insert_ne hk
      · rfl
    have hrest : ∀ y ∈ view, (touch key val stale s x).1.lookup (key y) = last.lookup (key y) := by
      intro y hy
      rw [hother _ fun he => hnd.1 (he ▸ List.mem_map_of_mem hy)]
      exact hs y (List.mem_cons_of_mem _ hy)
    obtain ⟨hmoved, hin, hout⟩ := ih hnd.2 (touch key val stale s x) hrest
    rw [List.foldl_cons]
    refine ⟨?_, ?_, ?_⟩
    · rw [hmoved, List.filter_cons, ← hx]
      unfold touch
      split
      · rw [List.append_assoc, List.singleton_append]
      · rfl
    · intro y hy
      rcases List.mem_cons.mp hy with rfl | hy
      · rw [hout (key y) hnd.1, ← hx]
        unfold touch
        split
        · exact AList.lookup_insert _
        · rfl
      · exact hin y hy
    · intro k hk
      rw [List.map_cons, List.mem_cons, not_or] at hk
      rw [hout k hk.2, hother k hk.1]

/-- **What a refresh ships**: the entries whose value is stale. -/
theorem refresh_shipped (hnd : (view.map key).Nodup) :
    (refresh key val stale last view).1
      = view.filter fun x => stale (last.lookup (key x)) (val x) :=
  (touch_foldl val stale last hnd (last, []) fun _ _ => rfl).1

/-- **What a refresh records.** -/
theorem refresh_recorded (hnd : (view.map key).Nodup) {x : ν} (hx : x ∈ view) :
    (refresh key val stale last view).2.lookup (key x)
      = if stale (last.lookup (key x)) (val x) then some (val x) else last.lookup (key x) := by
  obtain ⟨-, hin, -⟩ := touch_foldl val stale last hnd (last, []) fun _ _ => rfl
  refine (KeyedMap.lookup_filterKey ..).trans ?_
  rw [decide_eq_true (List.mem_map_of_mem hx), if_pos rfl]
  exact hin x hx

end Refresh

/-! ## Two channels into one mirror

A value may reach the mirror both with the entries of a diff and through a refresh.
Only the refresh compares with what it recorded (`base`), so a value that a diff
carried in between (`since`) is invisible to it. The mirror is up to date after a
refresh exactly when no such value stands where the entry is back at the baseline.
-/

section Channels

variable {key : ν → κ} {val : ν → ω} {same : ν → ν → Bool} {full : Bool} {zero : ω}
  {last : KeyedMap κ ν} {base since m m' : KeyedMap κ ω} {view : List ν}

/-- For every entry compared last, the mirror holds what a diff carried since, or else the baseline. -/
def Synced (zero : ω) (last : KeyedMap κ ν) (base since m : KeyedMap κ ω) : Prop :=
  ∀ k x, last.lookup k = some x →
    m.lookup k = some ((since.lookup k).getD ((base.lookup k).getD zero))

/-- What writing a selection of the view does to a map, entry by entry. -/
theorem upsert_filter (hnd : (view.map key).Nodup) (p : ν → Bool) (m : KeyedMap κ ω) {x : ν}
    (hx : x ∈ view) : (upsert key val m (view.filter p)).lookup (key x)
      = if p x then some (val x) else m.lookup (key x) := by
  split
  · rename_i hp
    exact upsert_lookup_of_mem (hnd.sublist (List.filter_sublist.map key))
      (List.mem_filter.mpr ⟨hx, hp⟩)
  · rename_i hp
    refine upsert_lookup_of_notMem fun hk => hp ?_
    obtain ⟨y, hy, he⟩ := List.mem_map.mp hk
    obtain ⟨hy, hpy⟩ := List.mem_filter.mp hy
    rwa [← List.inj_on_of_nodup_map hnd hy hx he]

/-- What one message of the stream does to the mirror, entry by entry. -/
theorem receive_diff (hnd : (view.map key).Nodup) (m : KeyedMap κ ω) {x : ν} (hx : x ∈ view) :
    (receive key val m ((diff key same full last view).changed,
        (diff key same full last view).removed)).lookup (key x)
      = if ships key same full last x then some (val x) else m.lookup (key x) := by
  refine (KeyedMap.lookup_eraseAll ..).trans ?_
  dsimp only
  rw [if_neg fun hr => ((mem_diff_removed hnd).mp hr).1 (List.mem_map_of_mem hx), diff_changed hnd,
    upsert_filter hnd _ _ hx]

variable (val same full) in
theorem Synced.diff (hnd : (view.map key).Nodup) (h : Synced zero last base since m) :
    Synced zero (diff key same full last view).last base
      (upsert key val since (Delta.diff key same full last view).changed)
      (upsert key val m (Delta.diff key same full last view).changed) := by
  intro k x hl
  obtain ⟨hx, rfl⟩ := (diff_last hnd k x).mp hl
  rw [diff_changed hnd, upsert_filter hnd _ m hx, upsert_filter hnd _ since hx]
  by_cases hc : ships key same full last x = true
  · rw [if_pos hc, if_pos hc]
    rfl
  · rw [if_neg hc, if_neg hc]
    obtain ⟨prev, hprev, -⟩ := of_ships_eq_false (Bool.not_eq_true _ ▸ hc)
    exact h (key x) prev hprev

/-- Taking the view itself as the baseline. -/
theorem Synced.reset (hnd : (view.map key).Nodup) (hh : Holds key view last)
    (hm : ∀ x ∈ view, m.lookup (key x) = some (val x)) :
    Synced zero last (upsert key val ∅ view) ∅ m := by
  intro k x hl
  obtain ⟨hx, rfl⟩ := (hh k x).mp hl
  rw [hm x hx, upsert_lookup_of_mem hnd hx]
  rfl

variable [DecidableEq ω]

/-- A value is stale unless it is the one recorded, `zero` standing in for none. -/
def staleFrom (zero : ω) (last : Option ω) (v : ω) : Bool := last.getD zero ≠ v

/-- No entry is back at its baseline after a diff carried another value. -/
def Settled (key : ν → κ) (val : ν → ω) (zero : ω) (base since : KeyedMap κ ω) (view : List ν) :
    Prop :=
  ∀ x ∈ view, (base.lookup (key x)).getD zero = val x → ∀ v, since.lookup (key x) = some v → v = val x

omit [DecidableEq ω] in
/-- Only entries the diff left out can be unsettled after it. -/
theorem settled_diff_iff (hnd : (view.map key).Nodup) :
    Settled key val zero base (upsert key val since (diff key same full last view).changed) view
      ↔ ∀ x ∈ view, ships key same full last x = false → (base.lookup (key x)).getD zero = val x →
          ∀ v, since.lookup (key x) = some v → v = val x := by
  refine forall₂_congr fun x hx => ?_
  rw [diff_changed hnd, upsert_filter hnd _ since hx]
  by_cases hc : ships key same full last x = true
  · rw [if_pos hc, hc]
    exact iff_of_true (fun _ v hv => (Option.some.inj hv).symm) nofun
  · rw [if_neg hc]
    exact ⟨fun h _ => h, fun h => h (Bool.not_eq_true _ ▸ hc)⟩

variable (val) in
/-- **After a refresh the mirror is up to date exactly when the view was settled.** -/
theorem refresh_upToDate_iff (hh : Holds key view last) (h : Synced zero last base since m)
    (hm' : ∀ x ∈ view, m'.lookup (key x)
      = if staleFrom zero (base.lookup (key x)) (val x) then some (val x) else m.lookup (key x)) :
    (∀ x ∈ view, m'.lookup (key x) = some (val x)) ↔ Settled key val zero base since view := by
  refine forall₂_congr fun x hx => ?_
  rw [hm' x hx]
  unfold staleFrom
  by_cases hb : (base.lookup (key x)).getD zero = val x
  · rw [if_neg (by simpa using hb), h (key x) x (hh.lookup hx), hb, Option.some.injEq]
    cases hs : since.lookup (key x) with
    | none => simp
    | some v => simp
  · rw [if_pos (decide_eq_true hb)]
    exact iff_of_true rfl fun hb' => absurd hb' hb

/-- After a refresh that leaves the mirror up to date, what it recorded is a baseline. -/
theorem Synced.refresh (hnd : (view.map key).Nodup) (hh : Holds key view last)
    (hm : ∀ x ∈ view, m.lookup (key x) = some (val x)) :
    Synced zero last (Delta.refresh key val (staleFrom zero) base view).2 ∅ m := by
  intro k x hl
  obtain ⟨hx, rfl⟩ := (hh k x).mp hl
  have hbase : ((Delta.refresh key val (staleFrom zero) base view).2.lookup (key x)).getD zero
      = val x := by
    rw [refresh_recorded hnd hx]
    split
    · rfl
    · rename_i hs
      rw [staleFrom, decide_eq_true_iff, not_not] at hs
      exact hs
  rw [hm x hx, hbase]
  rfl

end Channels

end Delta
