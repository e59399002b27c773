import Etherchimp.Lib.Runtime

/-!
# Cutting a sorted list

A list sorted by falling keys is cut after `n` elements. The cut is determined by the
keys unless it splits a tie: elements of one key, some of which stay and some of which
go. Then which of them go is left to the sort.
-/

namespace Cut

variable {α : Type} (key : α → Nat)

/-- How many elements have a greater key. -/
def ahead (l : List α) (a : α) : Nat := (l.filter fun b => key a < key b).length

/-- Some but not all elements of one key are among the first `n`. -/
def Splits (l : List α) (n : Nat) : Prop :=
  ∃ a ∈ l, ahead key l a < n ∧ n < (l.filter fun b => key a ≤ key b).length

instance (l : List α) (n : Nat) : Decidable (Splits key l n) :=
  inferInstanceAs (Decidable (∃ a ∈ l, _))

variable {key} {l l' s : List α} {n : Nat} {a : α}

theorem ahead_perm (h : l.Perm l') : ahead key l a = ahead key l' a := (h.filter _).length_eq

theorem splits_perm (h : l.Perm l') : Splits key l n ↔ Splits key l' n := by
  unfold Splits
  refine exists_congr fun a => and_congr h.mem_iff ?_
  rw [ahead_perm h, (h.filter _).length_eq]

/-- Only the keys of the listed elements matter. -/
theorem splits_congr {key' : α → Nat} (h : ∀ a ∈ l, key a = key' a) :
    Splits key l n ↔ Splits key' l n := by
  unfold Splits ahead
  refine exists_congr fun a => and_congr_right fun ha => ?_
  have hlt : (l.filter fun b => key a < key b) = l.filter fun b => key' a < key' b :=
    List.filter_congr fun b hb => by rw [h a ha, h b hb]
  have hle : (l.filter fun b => key a ≤ key b) = l.filter fun b => key' a ≤ key' b :=
    List.filter_congr fun b hb => by rw [h a ha, h b hb]
  rw [hlt, hle]

/-- What comes after the cut is never ahead of what comes before it. -/
theorem le_of_cut (hs : s.Pairwise fun a b => key b ≤ key a) {b : α} (ha : a ∈ s.take n)
    (hb : b ∈ s.drop n) : key b ≤ key a := by
  rw [← List.take_append_drop n s, List.pairwise_append] at hs
  exact hs.2.2 a ha b hb

/-- An element kept has fewer than `n` ahead. -/
theorem ahead_lt_of_take (hs : s.Pairwise fun a b => key b ≤ key a) (ha : a ∈ s.take n) :
    ahead key s a < n := by
  have hdrop : (s.drop n).filter (fun b => key a < key b) = [] := by
    refine List.filter_eq_nil_iff.mpr fun b hb => ?_
    rw [decide_eq_true_eq]
    exact Nat.not_lt.mpr (le_of_cut hs ha hb)
  have hlt : ((s.take n).filter fun b => key a < key b).length < (s.take n).length := by
    refine List.length_filter_lt_length_iff_exists.mpr ⟨a, ha, ?_⟩
    rw [decide_eq_true_eq]
    exact Nat.lt_irrefl _
  unfold ahead
  rw [← List.take_append_drop n s, List.filter_append, hdrop, List.append_nil]
  exact Nat.lt_of_lt_of_le hlt (List.length_take_le n s)

/-- All kept elements and itself are at least as great as an element cut off. -/
theorem lt_atLeast_of_drop (hs : s.Pairwise fun a b => key b ≤ key a) (ha : a ∈ s.drop n) :
    n < (s.filter fun b => key a ≤ key b).length := by
  have htake : (s.take n).filter (fun b => key a ≤ key b) = s.take n := by
    refine List.filter_eq_self.mpr fun b hb => ?_
    rw [decide_eq_true_eq]
    exact le_of_cut hs hb ha
  have hpos : 0 < ((s.drop n).filter fun b => key a ≤ key b).length := by
    refine List.length_pos_of_mem (List.mem_filter.mpr ⟨ha, ?_⟩)
    rw [decide_eq_true_eq]
  have hlen : (s.take n).length = n := by
    have := List.length_pos_of_mem ha
    rw [List.length_drop] at this
    rw [List.length_take]
    omega
  rw [← List.take_append_drop n s, List.filter_append, htake, List.length_append, hlen]
  omega

/-- **A cut that splits no tie is determined**: it takes off what has `n` ahead. -/
theorem drop_perm (hp : s.Perm l) (hs : s.Pairwise fun a b => key b ≤ key a)
    (hn : ¬ Splits key l n) : (s.drop n).Perm (l.filter fun a => n ≤ ahead key l a) := by
  have htake : (s.take n).filter (fun a => n ≤ ahead key l a) = [] := by
    refine List.filter_eq_nil_iff.mpr fun a ha => ?_
    rw [decide_eq_true_eq, ← ahead_perm hp]
    exact Nat.not_le.mpr (ahead_lt_of_take hs ha)
  have hdrop : (s.drop n).filter (fun a => n ≤ ahead key l a) = s.drop n := by
    refine List.filter_eq_self.mpr fun a ha => ?_
    rw [decide_eq_true_eq]
    by_contra hlt
    refine hn ⟨a, hp.mem_iff.mp (List.mem_of_mem_drop ha), Nat.not_le.mp hlt, ?_⟩
    rw [← (hp.filter _).length_eq]
    exact lt_atLeast_of_drop hs ha
  refine List.Perm.trans (List.Perm.of_eq ?_) (hp.filter fun a => n ≤ ahead key l a)
  rw [← List.take_append_drop n s, List.filter_append, htake, List.nil_append]
  rw [List.take_append_drop, hdrop]

/-! ## How many come before -/

section Before

variable {less : α → α → Bool}

/-- What stays has fewer than `n` elements that come before it. -/
theorem countP_lt_of_take (hs : s.Pairwise fun a b => less b a = false) (hirr : less a a = false)
    (ha : a ∈ s.take n) : s.countP (fun b => less b a) < n := by
  obtain ⟨pre, post, hsplit⟩ := List.append_of_mem ha
  have hlen : pre.length < n := by
    have := congrArg List.length hsplit
    rw [List.length_append, List.length_cons, List.length_take] at this
    omega
  have hs' : s = pre ++ a :: (post ++ s.drop n) := by
    rw [← List.cons_append, ← List.append_assoc, ← hsplit, List.take_append_drop]
  -- nothing behind it comes before it
  have hpost : (post ++ s.drop n).countP (fun b => less b a) = 0 := by
    rw [hs', List.pairwise_append, List.pairwise_cons] at hs
    refine List.countP_eq_zero.mpr fun b hb => ?_
    rw [hs.2.1.1 b hb]
    exact Bool.false_ne_true
  have hpre := List.countP_le_length (p := fun b => less b a) (l := pre)
  rw [hs', List.countP_append, List.countP_cons, hpost, hirr, if_neg Bool.false_ne_true]
  omega

/-- What goes has at least `n` elements before it, if no element kept ties with it. -/
theorem le_countP_of_drop (ha : a ∈ s.drop n) (hless : ∀ b ∈ s.take n, less b a = true) :
    n ≤ s.countP fun b => less b a := by
  have htake : (s.take n).countP (fun b => less b a) = (s.take n).length :=
    List.countP_eq_length.mpr hless
  have hlen := List.length_pos_of_mem ha
  rw [List.length_drop] at hlen
  have hcount : (s.take n).countP (fun b => less b a) ≤ s.countP fun b => less b a :=
    (List.take_sublist n s).countP_le
  rw [htake, List.length_take] at hcount
  omega

variable (key) in
/-- What comes last of its key, and of too many for the cut, goes. -/
theorem mem_drop_of_last (hs : s.Pairwise fun a b => less b a = false)
    (hirr : less a a = false) (hnd : s.Nodup) (ha : a ∈ s)
    (hn : n < (s.filter fun b => key a ≤ key b).length)
    (hlast : ∀ b ∈ s, b ≠ a → key a ≤ key b → less b a = true) : a ∈ s.drop n := by
  classical
  rcases List.mem_append.mp ((List.take_append_drop n s).symm ▸ ha) with hin | hout
  · have hlt := countP_lt_of_take hs hirr hin
    -- all others that are at least as great come before it
    have hothers : (s.erase a).countP (fun b => key a ≤ key b)
        ≤ (s.erase a).countP fun b => less b a := by
      refine List.countP_mono_left fun b hb hle => ?_
      obtain ⟨hne, hbs⟩ := (hnd.mem_erase_iff).mp hb
      exact hlast b hbs hne (of_decide_eq_true hle)
    have hsub : (s.erase a).countP (fun b => less b a) ≤ s.countP fun b => less b a :=
      List.erase_sublist.countP_le
    have hself := (List.perm_cons_erase ha).countP_eq fun b => key a ≤ key b
    rw [List.countP_cons, if_pos (decide_eq_true (Nat.le_refl (key a)))] at hself
    rw [← List.countP_eq_length_filter] at hn
    omega
  · exact hout

/-- **The names in front of the cut** are those of elements with fewer than `n` before them. -/
theorem mem_take_iff {β : Type} [LinearOrder β] {count : α → β} {name : α → String}
    (h : ByCount less count name) (hp : s.Perm l) (hs : s.Pairwise fun a b => less b a = false)
    {id : String} :
    id ∈ (s.take n).map name ↔ ∃ a ∈ l, name a = id ∧ l.countP (fun b => less b a) < n := by
  constructor
  · intro hid
    obtain ⟨a, ha, rfl⟩ := List.mem_map.mp hid
    refine ⟨a, hp.mem_iff.mp (List.mem_of_mem_take ha), rfl, ?_⟩
    rw [← hp.countP_eq]
    exact countP_lt_of_take hs (h.preorders.irrefl a) ha
  · rintro ⟨a, ha, rfl, hlt⟩
    have hsplit := List.take_append_drop n s
    rcases List.mem_append.mp (hsplit.symm ▸ hp.mem_iff.mpr ha) with hin | hout
    · exact List.mem_map_of_mem hin
    -- not all that is kept comes before it, and what does not has its name
    by_contra hcut
    rw [← hp.countP_eq] at hlt
    refine absurd (le_countP_of_drop hout fun b hb => ?_) (Nat.not_le.mpr hlt)
    by_contra hba
    rw [← hsplit, List.pairwise_append] at hs
    have hties := h.eq_of_ties (hs.2.2 b hb a hout) (Bool.eq_false_iff.mpr hba)
    exact hcut (hties.2 ▸ List.mem_map_of_mem hb)

end Before

/-! ## The other side of a tie -/

/-- A split tie stands right at the cut. -/
theorem tie_at_cut (hp : s.Perm l) (hs : s.Pairwise fun a b => key b ≤ key a)
    (h : Splits key l n) : ∃ p x y q, s = p ++ x :: y :: q ∧ p.length + 1 = n ∧ key x = key y := by
  obtain ⟨a, ha, hlt, hgt⟩ := (splits_perm hp).mpr h
  have hlen : n < s.length := Nat.lt_of_lt_of_le hgt (List.length_filter_le _ _)
  have hpos : 0 < n := Nat.lt_of_le_of_lt (Nat.zero_le _) hlt
  have hx : n - 1 < s.length := by omega
  -- the last element kept is not ahead of `a`, the first one cut off is not behind it
  have hle : key s[n - 1] ≤ key a := by
    by_contra hnot
    have htake : (s.take n).filter (fun b => key a < key b) = s.take n := by
      refine List.filter_eq_self.mpr fun b hb => ?_
      rw [decide_eq_true_eq]
      obtain ⟨i, hi, rfl⟩ := List.getElem_of_mem hb
      rw [List.length_take] at hi
      rw [List.getElem_take]
      rcases Nat.lt_or_ge i (n - 1) with hin | hin
      · have := List.pairwise_iff_getElem.mp hs i (n - 1) (by omega) hx hin
        omega
      · have : i = n - 1 := by omega
        subst this
        omega
    have := List.length_filter_le (fun b => decide (key a < key b)) (s.drop n)
    unfold ahead at hlt
    rw [← List.take_append_drop n s, List.filter_append, htake, List.length_append,
      List.length_take] at hlt
    omega
  have hge : key a ≤ key s[n] := by
    by_contra hnot
    have hdrop : (s.drop n).filter (fun b => key a ≤ key b) = [] := by
      refine List.filter_eq_nil_iff.mpr fun b hb => ?_
      rw [decide_eq_true_eq]
      obtain ⟨i, hi, rfl⟩ := List.getElem_of_mem hb
      rw [List.length_drop] at hi
      rw [List.getElem_drop]
      rcases Nat.eq_zero_or_pos i with h0 | hpos
      · subst h0
        exact hnot
      · have := List.pairwise_iff_getElem.mp hs n (n + i) hlen (by omega) (by omega)
        omega
    have := List.length_filter_le (fun b => decide (key a ≤ key b)) (s.take n)
    rw [← List.take_append_drop n s, List.filter_append, hdrop, List.append_nil] at hgt
    rw [List.length_take] at this
    omega
  have hsorted := List.pairwise_iff_getElem.mp hs (n - 1) n hx hlen (by omega)
  refine ⟨s.take (n - 1), s[n - 1], s[n], s.drop (n + 1), ?_, ?_, by omega⟩
  · have h₁ : s.drop (n - 1) = s[n - 1] :: s.drop n := by
      rw [List.drop_eq_getElem_cons hx, Nat.sub_add_cancel hpos]
    rw [← List.drop_eq_getElem_cons hlen, ← h₁, List.take_append_drop]
  · rw [List.length_take]
    omega

/-- Elements of one key on both sides of the cut are a split tie. -/
theorem splits_of_tie (hp : s.Perm l) (hs : s.Pairwise fun a b => key b ≤ key a) {p q : List α}
    {x y : α} (he : s = p ++ x :: y :: q) (hn : p.length + 1 = n) (hxy : key x = key y) :
    Splits key l n := by
  have hx : x ∈ s.take n := by
    rw [he, ← hn, List.take_append]
    simp
  have hy : y ∈ s.drop n := by
    rw [he, ← hn, List.drop_append]
    simp
  refine (splits_perm hp).mp ⟨y, List.mem_of_mem_drop hy, ?_, lt_atLeast_of_drop hs hy⟩
  have hlt := ahead_lt_of_take hs hx
  unfold ahead at hlt ⊢
  rwa [hxy] at hlt

theorem splits_map {β : Type} (f : β → α) (l : List β) :
    Splits key (l.map f) n ↔ Splits (fun b => key (f b)) l n := by
  unfold Splits ahead
  simp only [List.mem_map, exists_exists_and_eq_and, List.filter_map, List.length_map,
    Function.comp_def]

/-- Exchange the elements on both sides of the cut, if neither comes before the other. -/
def swapTied (less : α → α → Bool) : Nat → List α → List α
  | 1, a :: b :: l => if less a b = false ∧ less b a = false then b :: a :: l else a :: b :: l
  | n + 2, a :: l => a :: swapTied less (n + 1) l
  | _, l => l

variable {less less' : α → α → Bool}

theorem swapTied_perm (n : Nat) (l : List α) : (swapTied less n l).Perm l := by
  fun_induction swapTied less n l with
  | case1 a b l h => exact List.Perm.swap a b l
  | case2 a b l h => exact List.Perm.refl _
  | case3 n a l ih => exact ih.cons a
  | case4 n l h => exact List.Perm.refl _

theorem swapTied_sorted (n : Nat) {l : List α} (hl : l.Pairwise fun a b => less b a = false) :
    (swapTied less n l).Pairwise fun a b => less b a = false := by
  fun_induction swapTied less n l with
  | case1 a b l h =>
    obtain ⟨ha, hb⟩ := List.pairwise_cons.mp hl
    obtain ⟨hb', hl'⟩ := List.pairwise_cons.mp hb
    refine List.pairwise_cons.mpr ⟨fun c hc => ?_, List.pairwise_cons.mpr
      ⟨fun c hc => ha c (List.mem_cons_of_mem _ hc), hl'⟩⟩
    rcases List.mem_cons.mp hc with rfl | hc
    · exact h.1
    · exact hb' c hc
  | case2 a b l h => exact hl
  | case3 n a l ih =>
    obtain ⟨ha, hl⟩ := List.pairwise_cons.mp hl
    exact List.pairwise_cons.mpr
      ⟨fun c hc => ha c ((swapTied_perm (n + 1) l).mem_iff.mp hc), ih hl⟩
  | case4 n l h => exact hl

theorem swapTied_append (p : List α) (x y : α) (q : List α) (h : less x y = false ∧ less y x = false) :
    swapTied less (p.length + 1) (p ++ x :: y :: q) = p ++ y :: x :: q := by
  induction p with
  | nil =>
    show swapTied less 1 (x :: y :: q) = y :: x :: q
    rw [swapTied, if_pos h]
  | cons a p ih =>
    show swapTied less (p.length + 1 + 1) (a :: (p ++ x :: y :: q)) = a :: (p ++ y :: x :: q)
    rw [swapTied, ih]

/-- Where no tie stands at the cut nothing is exchanged. -/
theorem swapTied_eq_self {n : Nat} {l : List α} (h : ∀ p x y q, l = p ++ x :: y :: q →
    p.length + 1 = n → ¬ (less x y = false ∧ less y x = false)) : swapTied less n l = l := by
  fun_induction swapTied less n l with
  | case1 a b l htie => exact absurd htie (h [] a b l rfl rfl)
  | case2 a b l htie => rfl
  | case3 n a l ih =>
    refine congrArg _ (ih fun p x y q hl hn => h (a :: p) x y q ?_ ?_)
    · rw [hl]
      rfl
    · rw [List.length_cons, hn]
  | case4 n l hcase => rfl

theorem swapTied_congr {n : Nat} {l : List α} (h : ∀ a ∈ l, ∀ b ∈ l, less a b = less' a b) :
    swapTied less n l = swapTied less' n l := by
  fun_induction swapTied less n l with
  | case1 a b l htie =>
    have ha := h a List.mem_cons_self b (List.mem_cons_of_mem _ List.mem_cons_self)
    have hb := h b (List.mem_cons_of_mem _ List.mem_cons_self) a List.mem_cons_self
    rw [swapTied, if_pos (ha ▸ hb ▸ htie)]
  | case2 a b l htie =>
    have ha := h a List.mem_cons_self b (List.mem_cons_of_mem _ List.mem_cons_self)
    have hb := h b (List.mem_cons_of_mem _ List.mem_cons_self) a List.mem_cons_self
    rw [swapTied, if_neg (ha ▸ hb ▸ htie)]
  | case3 n a l ih =>
    rw [swapTied, ih fun a ha b hb => h a (List.mem_cons_of_mem _ ha) b (List.mem_cons_of_mem _ hb)]
  | case4 n l h₁ h₂ =>
    unfold swapTied
    split
    · exact absurd rfl (h₁ _ _ _ rfl)
    · exact absurd rfl (h₂ _ _ _ rfl)
    · rfl

/-! ## Breaking ties against some elements -/

/-- Of elements that tie, the late ones come last. -/
def delayed (late : α → Bool) (less : α → α → Bool) (a b : α) : Bool :=
  less a b || (!less b a && (!late a && late b))

theorem delayed_preorders {late : α → Bool} (h : Preorders less) : Preorders (delayed late less) where
  total a b := by
    unfold delayed
    rcases h.total a b with hab | hba
    · cases hba : less b a <;> cases late a <;> cases late b <;> simp [hab]
    · cases hab : less a b <;> cases late a <;> cases late b <;> simp [hba]
  trans a b c hba hcb := by
    unfold delayed at hba hcb ⊢
    simp only [Bool.or_eq_false_iff, Bool.and_eq_false_iff, Bool.not_eq_false'] at hba hcb ⊢
    refine ⟨h.trans a b c hba.1 hcb.1, ?_⟩
    rcases hac : less a c with _ | _
    · -- a tie of all three: lateness decides
      have hab := h.trans b c a hcb.1 hac
      have hbc := h.trans c a b hac hba.1
      rw [hab] at hba
      rw [hbc] at hcb
      cases hb : late b with
      | false => exact .inr (.inr ((hba.2.resolve_left Bool.false_ne_true).resolve_left (by
          rw [hb]; exact Bool.false_ne_true)))
      | true => exact .inr (.inl ((hcb.2.resolve_left Bool.false_ne_true).resolve_right (by
          rw [hb]; exact Bool.noConfusion)))
    · exact .inl rfl

end Cut

namespace Runtime

variable {α : Type} {less less' : α → α → Bool}

/-- A stable sort that then exchanges the elements at one cut, if they are tied. -/
def swapAt (n : Nat) : Runtime where
  rangeOf m := m.entries
  sortSlice less l := Cut.swapTied less n (stable.sortSlice less l)
  rangeOf_perm := stable.rangeOf_perm
  sortSlice_perm less l := (Cut.swapTied_perm n _).trans (stable.sortSlice_perm less l)
  sortSlice_sorted h l := Cut.swapTied_sorted n (stable.sortSlice_sorted h l)

/-- The sort compares only the elements of its list. -/
def Local (go : Runtime) : Prop := ∀ {α : Type} {less less' : α → α → Bool} {l : List α},
  (∀ a ∈ l, ∀ b ∈ l, less a b = less' a b) → go.sortSlice less l = go.sortSlice less' l

theorem orderedInsert_congr {r r' : α → α → Prop} [DecidableRel r] [DecidableRel r'] {a : α} :
    ∀ {l : List α}, (∀ b ∈ l, r a b ↔ r' a b) → l.orderedInsert r a = l.orderedInsert r' a
  | [], _ => rfl
  | b :: l, h => by
    rw [List.orderedInsert_cons, List.orderedInsert_cons,
      orderedInsert_congr fun c hc => h c (List.mem_cons_of_mem _ hc)]
    exact if_congr (h b List.mem_cons_self) rfl rfl

theorem stable_local : stable.Local := by
  intro α less less' l h
  show l.insertionSort _ = l.insertionSort _
  induction l with
  | nil => rfl
  | cons a l ih =>
    rw [List.insertionSort_cons, List.insertionSort_cons,
      ih fun a ha b hb => h a (List.mem_cons_of_mem _ ha) b (List.mem_cons_of_mem _ hb)]
    refine orderedInsert_congr fun b hb => ?_
    rw [h b (List.mem_cons_of_mem _ ((List.mem_insertionSort _).mp hb)) a List.mem_cons_self]

theorem swapAt_local (n : Nat) : (swapAt n).Local := by
  intro α less less' l h
  show Cut.swapTied less n (stable.sortSlice less l) = Cut.swapTied less' n (stable.sortSlice less' l)
  rw [stable_local h]
  refine Cut.swapTied_congr fun a ha b hb => ?_
  exact h a ((stable.mem_sortSlice).mp ha) b ((stable.mem_sortSlice).mp hb)

open Classical in
/-- A stable sort that puts the late ones of equal elements last. -/
noncomputable def delaying {β : Type} (late : β → Bool) : Runtime where
  rangeOf m := m.entries
  sortSlice {α} less l :=
    stable.sortSlice (Cut.delayed (fun a : α => ∃ b, late b = true ∧ HEq a b) less) l
  rangeOf_perm := stable.rangeOf_perm
  sortSlice_perm _ l := stable.sortSlice_perm _ l
  sortSlice_sorted h l := by
    refine (stable.sortSlice_sorted (Cut.delayed_preorders h) l).imp fun hab => ?_
    unfold Cut.delayed at hab
    exact (Bool.or_eq_false_iff.mp hab).1

theorem delaying_sort {β : Type} (late : β → Bool) (less : β → β → Bool) (l : List β) :
    (delaying late).sortSlice less l = stable.sortSlice (Cut.delayed late less) l := by
  unfold delaying
  simp [heq_eq_eq]

theorem delaying_local {β : Type} (late : β → Bool) : (delaying late).Local := by
  intro α less less' l h
  refine stable_local fun a ha b hb => ?_
  unfold Cut.delayed
  rw [h a ha b hb, h b hb a ha]

end Runtime
