import Etherchimp.Capture.Local
import Mathlib

/-!
# An address reads back as it is printed

The parser undoes the printer: the text of an address of four or sixteen bytes
parses to its sixteen-byte form. For IPv6 the text is followed group by group;
the one place where it is shorter than the address is `::`, which stands for a
run of zero groups and is expanded to as many zero bytes as are missing.
-/

namespace Etherchimp

open IP

/-! ## Digits -/

/-- A hexadecimal digit reads as what it stands for. -/
theorem hexNibble_digitChar : ∀ d < 16, hexNibble (Nat.digitChar d) = some d := by decide

/-- Induction along the hexadecimal digits of a number, the last one first. -/
theorem digits_induction {P : Nat → Prop} (hdigit : ∀ d < 16, P d)
    (hmore : ∀ n, 16 ≤ n → P (n / 16) → P n) (n : Nat) : P n := by
  induction n using Nat.strongRecOn with
  | ind n ih =>
    by_cases h : n < 16
    · exact hdigit n h
    · exact hmore n (by omega) (ih (n / 16) (by omega))

theorem takeHex_digit {d : Nat} (hd : d < 16) (acc off : Nat) (rest : List Char) :
    takeHex acc off (Nat.digitChar d :: rest) = takeHex (acc * 16 + d) (off + 1) rest := by
  rw [takeHex, hexNibble_digitChar d hd]

/-- Reading the digits of a number appends them to what was read. -/
theorem takeHex_digits (n : Nat) : ∀ (acc off : Nat) (rest : List Char),
    takeHex acc off (Nat.toDigits 16 n ++ rest)
      = takeHex (acc * 16 ^ (Nat.toDigits 16 n).length + n)
          (off + (Nat.toDigits 16 n).length) rest := by
  induction n using digits_induction with
  | hdigit d hd =>
    intro acc off rest
    rw [Nat.toDigits_of_lt_base hd, List.singleton_append, takeHex_digit hd]
    rfl
  | hmore n hn ih =>
    intro acc off rest
    rw [Nat.toDigits_of_base_le (by decide) hn, List.append_assoc, List.singleton_append, ih,
      takeHex_digit (by omega), List.length_append, List.length_singleton]
    congr 1
    have hpow : 16 ^ ((Nat.toDigits 16 (n / 16)).length + 1)
        = 16 ^ (Nat.toDigits 16 (n / 16)).length * 16 := Nat.pow_succ ..
    rw [hpow, ← Nat.mul_assoc, Nat.add_mul]
    omega

/-- The digits are hexadecimal digits. -/
theorem hexNibble_of_mem {n : Nat} {c : Char} (hc : c ∈ Nat.toDigits 16 n) :
    ∃ d, hexNibble c = some d := by
  induction n using digits_induction with
  | hdigit d hd =>
    rw [Nat.toDigits_of_lt_base hd, List.mem_singleton] at hc
    exact ⟨d, hc ▸ hexNibble_digitChar d hd⟩
  | hmore n hn ih =>
    rw [Nat.toDigits_of_base_le (by decide) hn, List.mem_append, List.mem_singleton] at hc
    rcases hc with hc | rfl
    · exact ih hc
    · exact ⟨n % 16, hexNibble_digitChar _ (by omega)⟩

/-! ## Groups -/

/-- The text of colon-separated groups. -/
def groupChars : List Nat → List Char
  | [] => []
  | [g] => Nat.toDigits 16 g
  | g :: gs => Nat.toDigits 16 g ++ ':' :: groupChars gs

theorem groupChars_cons {gs : List Nat} (h : gs ≠ []) (g : Nat) :
    groupChars (g :: gs) = Nat.toDigits 16 g ++ ':' :: groupChars gs := by
  cases gs with
  | nil => exact absurd rfl h
  | cons g' gs => rfl

theorem intercalate_hexText (gs : List Nat) :
    (":".intercalate (gs.map hexText)).toList = groupChars gs := by
  induction gs with
  | nil => rfl
  | cons g gs ih =>
    cases gs with
    | nil => simp [groupChars, hexText]
    | cons g' gs =>
      rw [List.map_cons, List.map_cons, String.intercalate_cons_cons, groupChars_cons (by simp),
        ← ih]
      simp [hexText]

/-- The bytes of groups, two each. -/
def groupBytes (gs : List Nat) : List Nat := gs.flatMap fun g => [g / 256, g % 256]

theorem groupBytes_append (gs hs : List Nat) :
    groupBytes (gs ++ hs) = groupBytes gs ++ groupBytes hs := List.flatMap_append

theorem length_groupBytes (gs : List Nat) : (groupBytes gs).length = 2 * gs.length := by
  induction gs with
  | nil => rfl
  | cons g gs ih =>
    show (groupBytes gs).length + 1 + 1 = _
    rw [ih, List.length_cons]
    omega

/-- A text begins with a digit and not with a colon. -/
theorem groupChars_head {gs : List Nat} (h : gs ≠ []) :
    ∃ c rest, groupChars gs = c :: rest ∧ ∃ d, hexNibble c = some d := by
  have hfirst : ∀ (g : Nat) (tail : List Char), ∃ c rest, Nat.toDigits 16 g ++ tail = c :: rest ∧
      ∃ d, hexNibble c = some d := by
    intro g tail
    obtain ⟨c, rest, hc⟩ := List.exists_cons_of_ne_nil (@Nat.toDigits_ne_nil g 16)
    exact ⟨c, rest ++ tail, by rw [hc]; rfl, hexNibble_of_mem (hc ▸ List.mem_cons_self ..)⟩
  cases gs with
  | nil => exact absurd rfl h
  | cons g gs =>
    by_cases hgs : gs = []
    · subst hgs
      obtain ⟨c, rest, hc, hd⟩ := hfirst g []
      exact ⟨c, rest, (List.append_nil _).symm.trans hc, hd⟩
    · rw [groupChars_cons hgs]
      exact hfirst g _

theorem colon_not_digit : hexNibble ':' = none := by decide

/-- The digits of one group end at the colon, or at the end. -/
theorem takeHex_group (g : Nat) {rest : List Char} (hstop : rest = [] ∨ ∃ s, rest = ':' :: s) :
    takeHex 0 0 (Nat.toDigits 16 g ++ rest) = (g, (Nat.toDigits 16 g).length, rest) := by
  rw [takeHex_digits, Nat.zero_mul, Nat.zero_add, Nat.zero_add]
  rcases hstop with rfl | ⟨s, rfl⟩
  · rfl
  · rw [takeHex, colon_not_digit]

/-- A group has one to four digits. -/
theorem group_digits {g : Nat} (hg : g < 65536) :
    ¬ ((Nat.toDigits 16 g).length = 0 ∨ 4 < (Nat.toDigits 16 g).length) := by
  have hpos := @Nat.length_toDigits_pos 16 g
  have hle := (@Nat.length_toDigits_le_iff 16 g 4 (by decide) (by decide)).mpr hg
  omega

/-! ### One turn of the group loop -/

section Turn

variable {g : Nat} (hg : g < 65536) (fuel : Nat) (out : List Nat) (ell : Option Nat)
include hg

theorem parseGroups_last :
    parseGroups (fuel + 1) out ell (Nat.toDigits 16 g)
      = some (out ++ [g / 256, g % 256], ell, []) := by
  have ht := @takeHex_group g [] (Or.inl rfl)
  rw [List.append_nil] at ht
  rw [parseGroups, ht]
  dsimp only
  rw [if_neg (group_digits hg), if_neg (by decide)]

theorem parseGroups_next {c : Char} {d : Nat} (hc : hexNibble c = some d) (s : List Char) :
    parseGroups (fuel + 1) out ell (Nat.toDigits 16 g ++ ':' :: c :: s)
      = parseGroups fuel (out ++ [g / 256, g % 256]) ell (c :: s) := by
  rw [parseGroups, takeHex_group g (Or.inr ⟨_, rfl⟩)]
  dsimp only
  rw [if_neg (group_digits hg), if_neg (by simp)]
  -- a digit is no colon, so this is not the `::`
  split
  · rename_i h
    cases h
  · rename_i h
    cases h
    rw [colon_not_digit] at hc
    cases hc
  · rename_i h
    cases h
    rfl
  · rename_i h
    exact absurd rfl (h c s)

theorem parseGroups_gap (s : List Char) :
    parseGroups (fuel + 1) out none (Nat.toDigits 16 g ++ ':' :: ':' :: s)
      = if s = [] then some (out ++ [g / 256, g % 256], some (out.length + 2), [])
        else parseGroups fuel (out ++ [g / 256, g % 256]) (some (out.length + 2)) s := by
  rw [parseGroups, takeHex_group g (Or.inr ⟨_, rfl⟩)]
  dsimp only
  have hlen : (out ++ [g / 256, g % 256]).length = out.length + 2 := List.length_append
  rw [if_neg (group_digits hg), if_neg (by simp), hlen]
  rfl

end Turn

/-- **The loop reads groups to the end of the text.** -/
theorem parseGroups_groups {gs : List Nat} (hne : gs ≠ []) (hgs : ∀ g ∈ gs, g < 65536) :
    ∀ {fuel : Nat} {out : List Nat} {ell : Option Nat}, gs.length ≤ fuel →
      parseGroups fuel out ell (groupChars gs) = some (out ++ groupBytes gs, ell, []) := by
  induction gs with
  | nil => exact absurd rfl hne
  | cons g gs ih =>
    intro fuel out ell hfuel
    obtain ⟨fuel, rfl⟩ : ∃ k, fuel = k + 1 := Nat.exists_eq_add_one.mpr (by
      rw [List.length_cons] at hfuel
      omega)
    have hg := hgs g (List.mem_cons_self ..)
    by_cases hnil : gs = []
    · subst hnil
      exact parseGroups_last hg fuel out ell
    · obtain ⟨c, rest, hrest, d, hd⟩ := groupChars_head hnil
      rw [List.length_cons] at hfuel
      rw [groupChars_cons hnil, hrest, parseGroups_next hg fuel out ell hd, ← hrest,
        ih hnil (fun g' hg' => hgs g' (List.mem_cons_of_mem g hg')) (by omega), List.append_assoc]
      rfl

/-- The loop reads groups up to a `::`, and goes on behind it. -/
theorem parseGroups_ellipsis {gs : List Nat} (hne : gs ≠ []) (hgs : ∀ g ∈ gs, g < 65536)
    (s : List Char) : ∀ {fuel : Nat} {out : List Nat}, gs.length ≤ fuel →
      parseGroups fuel out none (groupChars gs ++ ':' :: ':' :: s)
        = if s = [] then some (out ++ groupBytes gs, some (out.length + 2 * gs.length), [])
          else parseGroups (fuel - gs.length) (out ++ groupBytes gs)
            (some (out.length + 2 * gs.length)) s := by
  induction gs with
  | nil => exact absurd rfl hne
  | cons g gs ih =>
    intro fuel out hfuel
    rw [List.length_cons] at hfuel
    obtain ⟨fuel, rfl⟩ : ∃ k, fuel = k + 1 := Nat.exists_eq_add_one.mpr (by omega)
    have hg := hgs g (List.mem_cons_self ..)
    by_cases hnil : gs = []
    · subst hnil
      exact parseGroups_gap hg fuel out s
    · obtain ⟨c, rest, hrest, d, hd⟩ := groupChars_head hnil
      have hlen : (out ++ [g / 256, g % 256]).length + 2 * gs.length
          = out.length + 2 * (gs.length + 1) := by
        rw [List.length_append]
        show out.length + 2 + 2 * gs.length = _
        omega
      rw [groupChars_cons hnil, hrest, List.append_assoc, List.cons_append, List.cons_append,
        parseGroups_next hg fuel out none hd, ← List.cons_append, ← hrest,
        ih hnil (fun g' hg' => hgs g' (List.mem_cons_of_mem g hg')) (by omega), hlen,
        List.append_assoc, List.length_cons, Nat.add_sub_add_right]
      rfl

/-! ## The zero run -/

/-- What the printer found: two or more groups, all of them zero. -/
theorem zeroRun_spec {gs : List Nat} {i l : Nat} (h : zeroRun gs = some (i, l)) :
    2 ≤ l ∧ i + l ≤ gs.length ∧ (gs.drop i).take l = List.replicate l 0 := by
  have hrun : ∀ (is : List Nat) (best : Option (Nat × Nat)),
      (∀ r ∈ best, 2 ≤ r.2 ∧ r.2 = ((gs.drop r.1).takeWhile (· = 0)).length) →
      ∀ r ∈ is.foldl (fun best i =>
        let l := ((gs.drop i).takeWhile (· = 0)).length
        if 2 ≤ l ∧ (best.map Prod.snd).getD 0 < l then some (i, l) else best) best,
        2 ≤ r.2 ∧ r.2 = ((gs.drop r.1).takeWhile (· = 0)).length := by
    intro is
    induction is with
    | nil => exact fun best hbest => hbest
    | cons j is ih =>
      intro best hbest
      refine ih _ fun r hr => ?_
      dsimp only at hr
      split at hr
      · rename_i hl
        cases hr
        exact ⟨hl.1, rfl⟩
      · exact hbest r hr
  obtain ⟨hl, hlen⟩ := hrun _ none (fun r hr => by cases hr) (i, l) h
  dsimp only at hl hlen
  have hle : l ≤ (gs.drop i).length := hlen ▸ (List.takeWhile_prefix _).length_le
  rw [List.length_drop] at hle
  refine ⟨hl, by omega, ?_⟩
  rw [hlen, List.prefix_iff_eq_take.mp (List.takeWhile_prefix (fun x => decide (x = 0))) |>.symm,
    List.eq_replicate_iff]
  refine ⟨rfl, fun x hx => ?_⟩
  simpa using List.mem_takeWhile_imp hx

/-- Groups of the bytes of an address. -/
theorem groupBytes_hexGroups : ∀ {ip : List Nat}, ip.length % 2 = 0 → (∀ b ∈ ip, b < 256) →
    groupBytes (hexGroups ip) = ip
  | [], _, _ => rfl
  | [_], h, _ => by cases h
  | hi :: lo :: ip, h, hb => by
    have hhi := hb hi (by simp)
    have hlo := hb lo (by simp)
    have hrest : groupBytes (hexGroups ip) = ip := groupBytes_hexGroups
      (by rw [List.length_cons, List.length_cons] at h; omega)
      fun b hm => hb b (List.mem_cons_of_mem hi (List.mem_cons_of_mem lo hm))
    show (hi * 256 + lo) / 256 :: (hi * 256 + lo) % 256 :: groupBytes (hexGroups ip) = _
    rw [hrest, show (hi * 256 + lo) / 256 = hi by omega, show (hi * 256 + lo) % 256 = lo by omega]

theorem length_hexGroups : ∀ (ip : List Nat), (hexGroups ip).length = ip.length / 2
  | [] => rfl
  | [b] => by
    rw [List.length_singleton]
    rfl
  | _ :: _ :: ip => by
    show (hexGroups ip).length + 1 = _
    rw [length_hexGroups ip, List.length_cons, List.length_cons]
    omega

theorem hexGroups_lt : ∀ {ip : List Nat}, (∀ b ∈ ip, b < 256) → ∀ g ∈ hexGroups ip, g < 65536
  | [], _, _, hg => by cases hg
  | [_], _, _, hg => by cases hg
  | hi :: lo :: ip, hb, g, hg => by
    rcases List.mem_cons.mp hg with rfl | hg
    · have hhi := hb hi (by simp)
      have hlo := hb lo (by simp)
      omega
    · exact hexGroups_lt (fun b hm =>
        hb b (List.mem_cons_of_mem hi (List.mem_cons_of_mem lo hm))) g hg

/-! ## IPv6 text -/

/-- The text of eight groups, as characters. -/
theorem ipv6Text_toList (gs : List Nat) : (ipv6Text gs).toList =
    match zeroRun gs with
    | none => groupChars gs
    | some (i, l) => groupChars (gs.take i) ++ ':' :: ':' :: groupChars (gs.drop (i + l)) := by
  unfold ipv6Text
  rcases zeroRun gs with _ | ⟨i, l⟩
  · exact intercalate_hexText gs
  · dsimp only
    rw [String.toList_append, String.toList_append, intercalate_hexText, intercalate_hexText,
      List.append_assoc]
    rfl

/-- Expanding the `::` puts the missing zeros back. -/
theorem expandEllipsis_groups {gs : List Nat} (hlen : gs.length = 8) {i l : Nat}
    (hrun : 2 ≤ l ∧ i + l ≤ gs.length ∧ (gs.drop i).take l = List.replicate l 0) :
    expandEllipsis (groupBytes (gs.take i) ++ groupBytes (gs.drop (i + l))) (some (2 * i))
      = some (groupBytes gs) := by
  obtain ⟨hl, hle, hzero⟩ := hrun
  have hfront : (groupBytes (gs.take i)).length = 2 * i := by
    rw [length_groupBytes, List.length_take]
    omega
  have hout : (groupBytes (gs.take i) ++ groupBytes (gs.drop (i + l))).length = 16 - 2 * l := by
    rw [List.length_append, hfront, length_groupBytes, List.length_drop]
    omega
  have hzeros : ∀ n, groupBytes (List.replicate n 0) = List.replicate (2 * n) 0 := by
    intro n
    induction n with
    | zero => rfl
    | succ n ih =>
      rw [List.replicate_succ, show 2 * (n + 1) = 2 * n + 1 + 1 by omega, List.replicate_succ,
        List.replicate_succ, ← ih]
      rfl
  have hsplit : gs = gs.take i ++ (List.replicate l 0 ++ gs.drop (i + l)) := by
    rw [← hzero, ← List.drop_drop, List.take_append_drop, List.take_append_drop]
  unfold expandEllipsis
  rw [if_pos (by omega), hout, Option.map_some, List.take_left' hfront, List.drop_left' hfront,
    show 16 - (16 - 2 * l) = 2 * l by omega]
  conv => rhs; rw [hsplit]
  rw [groupBytes_append, groupBytes_append, hzeros, List.append_assoc]

/-- A text that begins with `::` is read behind it. -/
theorem parseIPv6_colons {s : List Char} (hs : s ≠ []) : parseIPv6 (':' :: ':' :: s) =
    match parseGroups 8 [] (some 0) s with
    | some (out, ell, []) => expandEllipsis out ell
    | _ => none := by
  show (if (some 0).isSome ∧ s = [] then _ else _) = _
  rw [if_neg fun h => hs h.2]
  rfl

/-- A text that begins with a digit is read from there. -/
theorem parseIPv6_digit {c : Char} {d : Nat} (hd : hexNibble c = some d) (s : List Char) :
    parseIPv6 (c :: s) =
      match parseGroups 8 [] none (c :: s) with
      | some (out, ell, []) => expandEllipsis out ell
      | _ => none := by
  unfold parseIPv6
  split
  rename_i ell t hm
  split at hm
  · rename_i s' hs
    cases hs
    rw [colon_not_digit] at hd
    cases hd
  · cases hm
    exact if_neg (by simp)

theorem groupChars_ne_nil {gs : List Nat} (h : gs ≠ []) : groupChars gs ≠ [] := by
  obtain ⟨c, rest, hc, _⟩ := groupChars_head h
  rw [hc]
  exact List.cons_ne_nil c rest

/-- **The text of eight groups reads back as their bytes.** -/
theorem parseIPv6_groups {gs : List Nat} (hlen : gs.length = 8) (hgs : ∀ g ∈ gs, g < 65536) :
    parseIPv6 (ipv6Text gs).toList = some (groupBytes gs) := by
  have hne : gs ≠ [] := fun h => by rw [h] at hlen; cases hlen
  rw [ipv6Text_toList]
  rcases hrun : zeroRun gs with _ | ⟨i, l⟩
  · obtain ⟨c, rest, hrest, d, hd⟩ := groupChars_head hne
    dsimp only
    rw [hrest, parseIPv6_digit hd, ← hrest, parseGroups_groups hne hgs (by omega)]
    dsimp only
    unfold expandEllipsis
    rw [List.nil_append, length_groupBytes, hlen, if_neg (by decide), if_neg (by decide)]
  · have hspec := zeroRun_spec hrun
    have hexp := expandEllipsis_groups hlen hspec
    have hrest : ∀ g ∈ gs.drop (i + l), g < 65536 := fun g hg => hgs g (List.mem_of_mem_drop hg)
    have hrestLen : (gs.drop (i + l)).length = 8 - (i + l) := by rw [List.length_drop, hlen]
    dsimp only
    generalize gs.drop (i + l) = back at hexp hrest hrestLen ⊢
    by_cases hi : i = 0
    · -- the text begins with the `::`
      subst hi
      have hbytes : groupBytes (gs.take 0) ++ groupBytes back = groupBytes back := rfl
      rw [hbytes] at hexp
      show parseIPv6 (':' :: ':' :: groupChars back) = _
      by_cases hend : back = []
      · subst hend
        exact hexp
      · rw [parseIPv6_colons (groupChars_ne_nil hend), parseGroups_groups hend hrest (by omega)]
        exact hexp
    · have hfront : gs.take i ≠ [] := by
        rw [ne_eq, List.take_eq_nil_iff]
        exact not_or.mpr ⟨hi, hne⟩
      have hfrontLen : (gs.take i).length = i := by
        rw [List.length_take]
        omega
      have hfrontLt : ∀ g ∈ gs.take i, g < 65536 := fun g hg => hgs g (List.mem_of_mem_take hg)
      generalize gs.take i = front at hexp hfront hfrontLen hfrontLt ⊢
      obtain ⟨c, rest, hc, d, hd⟩ := groupChars_head hfront
      rw [hc, List.cons_append, parseIPv6_digit hd, ← List.cons_append, ← hc,
        parseGroups_ellipsis hfront hfrontLt _ (by omega), hfrontLen, List.length_nil,
        Nat.zero_add, List.nil_append]
      by_cases hend : back = []
      · subst hend
        have hbytes : groupBytes front ++ groupBytes [] = groupBytes front := List.append_nil _
        rw [hbytes] at hexp
        exact hexp
      · rw [if_neg (groupChars_ne_nil hend), parseGroups_groups hend hrest (by omega)]
        exact hexp

/-! ## The characters of a text -/

/-- A text of groups holds digits and colons. -/
theorem mem_groupChars {gs : List Nat} {c : Char} (hc : c ∈ groupChars gs) :
    c = ':' ∨ ∃ d, hexNibble c = some d := by
  induction gs with
  | nil => cases hc
  | cons g gs ih =>
    by_cases hnil : gs = []
    · subst hnil
      exact Or.inr (hexNibble_of_mem hc)
    · rw [groupChars_cons hnil, List.mem_append, List.mem_cons] at hc
      rcases hc with hc | rfl | hc
      · exact Or.inr (hexNibble_of_mem hc)
      · exact Or.inl rfl
      · exact ih hc

theorem mem_ipv6Text {gs : List Nat} {c : Char} (hc : c ∈ (ipv6Text gs).toList) :
    c = ':' ∨ ∃ d, hexNibble c = some d := by
  rw [ipv6Text_toList] at hc
  split at hc
  · exact mem_groupChars hc
  · rw [List.mem_append, List.mem_cons, List.mem_cons] at hc
    rcases hc with hc | hc | hc | hc
    · exact mem_groupChars hc
    · exact Or.inl hc
    · exact Or.inl hc
    · exact mem_groupChars hc

/-- A text begins with `::`, after a first group of 0, or with its first group and a colon. -/
theorem ipv6Text_front {g : Nat} {gs : List Nat} (hne : gs ≠ []) :
    (g = 0 ∧ ∃ s, (ipv6Text (g :: gs)).toList = ':' :: ':' :: s)
    ∨ ∃ s, (ipv6Text (g :: gs)).toList = Nat.toDigits 16 g ++ ':' :: s := by
  rw [ipv6Text_toList]
  rcases hrun : zeroRun (g :: gs) with _ | ⟨i, l⟩
  · exact Or.inr ⟨_, groupChars_cons hne g⟩
  · obtain ⟨hl, -, hzero⟩ := zeroRun_spec hrun
    dsimp only
    cases i with
    | zero =>
      obtain ⟨l, rfl⟩ : ∃ k, l = k + 1 := Nat.exists_eq_add_one.mpr (by omega)
      rw [List.drop_zero, List.take_succ_cons, List.replicate_succ, List.cons.injEq] at hzero
      exact Or.inl ⟨hzero.1, _, rfl⟩
    | succ i =>
      rw [List.take_succ_cons]
      by_cases htake : gs.take i = []
      · rw [htake]
        exact Or.inr ⟨_, rfl⟩
      · rw [groupChars_cons htake, List.append_assoc]
        exact Or.inr ⟨_, rfl⟩

/-! ## The round trip -/

/-- The byte fields of a dotted text. -/
theorem parseField_byte : ∀ n < 256, parseField (toString n).toList = some n := by decide +kernel

theorem digit_of_mem_byte {n : Nat} {c : Char} (hc : c ∈ (toString n).toList) :
    c.isDigit = true := by
  rw [Nat.toString_eq_repr, Nat.toList_repr] at hc
  exact Nat.isDigit_of_mem_toDigits (by decide) (by decide) hc

/-- A dotted text reads back as its mapped address. -/
theorem parseIP_dotted {a b c d : Nat} (ha : a < 256) (hb : b < 256) (hc : c < 256)
    (hd : d < 256) :
    parseIP (".".intercalate ([a, b, c, d].map toString)) = some (v4Prefix ++ [a, b, c, d]) := by
  have hlist : (".".intercalate ([a, b, c, d].map toString)).toList
      = ['.'].intercalate ([a, b, c, d].map fun n => (toString n).toList) := by
    rw [String.toList_intercalate, List.map_map]
    rfl
  have hfields : (['.'].intercalate ([a, b, c, d].map fun n => (toString n).toList)).splitOn '.'
      = [a, b, c, d].map fun n => (toString n).toList := by
    refine List.splitOn_intercalate '.' (fun l hl hm => ?_) (by simp)
    obtain ⟨n, _, rfl⟩ := List.mem_map.mp hl
    exact absurd (digit_of_mem_byte hm) (by decide)
  have hparse : parseIPv4Fields (".".intercalate ([a, b, c, d].map toString)).toList
      = some [a, b, c, d] := by
    unfold parseIPv4Fields
    rw [hlist, hfields]
    simp only [List.map_cons, List.map_nil, List.mapM_cons, List.mapM_nil, parseField_byte a ha,
      parseField_byte b hb, parseField_byte c hc, parseField_byte d hd]
    rfl
  -- the first separator is the dot behind the first field
  have hfirst : (".".intercalate ([a, b, c, d].map toString)).toList.find?
      (fun c => c = '.' ∨ c = ':' ∨ c = '%') = some '.' := by
    have hnone : (toString a).toList.find? (fun c => decide (c = '.' ∨ c = ':' ∨ c = '%'))
        = none := by
      refine List.find?_eq_none.mpr fun c hm h => ?_
      have hdigit := digit_of_mem_byte hm
      rw [decide_eq_true_iff] at h
      rcases h with rfl | rfl | rfl <;> exact absurd hdigit (by decide)
    have hsplit : ['.'].intercalate ([a, b, c, d].map fun n => (toString n).toList)
        = (toString a).toList ++ '.' ::
          ['.'].intercalate ([b, c, d].map fun n => (toString n).toList) := by
      simp
    rw [hlist, hsplit, List.find?_append, hnone, Option.none_or]
    exact List.find?_cons_of_pos (by decide)
  unfold parseIP
  rw [hfirst, hparse]
  rfl

/-- The text of eight groups reads back, as an address. -/
theorem parseIP_groups {gs : List Nat} (hlen : gs.length = 8) (hgs : ∀ g ∈ gs, g < 65536) :
    parseIP (ipv6Text gs) = some (groupBytes gs) := by
  have hnot : ∀ {c : Char} {d : Nat}, hexNibble c = some d → c ≠ '.' ∧ c ≠ ':' ∧ c ≠ '%' := by
    intro c d h
    refine ⟨?_, ?_, ?_⟩ <;> rintro rfl <;> cases h
  have hfirst : (ipv6Text gs).toList.find? (fun c => c = '.' ∨ c = ':' ∨ c = '%') = some ':' := by
    cases gs with
    | nil => cases hlen
    | cons g gs =>
      have hne : gs ≠ [] := fun h => by rw [h] at hlen; cases hlen
      rcases ipv6Text_front (g := g) hne with ⟨-, s, hs⟩ | ⟨s, hs⟩
      · rw [hs]
        exact List.find?_cons_of_pos (by decide)
      · have hnone : (Nat.toDigits 16 g).find? (fun c => decide (c = '.' ∨ c = ':' ∨ c = '%'))
            = none := by
          refine List.find?_eq_none.mpr fun c hm h => ?_
          obtain ⟨d, hd⟩ := hexNibble_of_mem hm
          rw [decide_eq_true_iff] at h
          obtain ⟨h1, h2, h3⟩ := hnot hd
          exact h.elim h1 fun h => h.elim h2 h3
        rw [hs, List.find?_append, hnone, Option.none_or]
        exact List.find?_cons_of_pos (by decide)
  have hzone : '%' ∉ (ipv6Text gs).toList := by
    intro hm
    rcases mem_ipv6Text hm with h | ⟨d, hd⟩
    · exact absurd h (by decide)
    · exact (hnot hd).2.2 rfl
  unfold parseIP
  rw [hfirst, if_neg hzone]
  exact parseIPv6_groups hlen hgs

/-- The sixteen-byte form of an address. -/
def to16 (ip : List Nat) : List Nat := if ip.length = 4 then v4Prefix ++ ip else ip

/-- **An address reads back as it is printed**, in its sixteen-byte form. -/
theorem parseIP_ipString {ip : List Nat} (hlen : ip.length = 4 ∨ ip.length = 16)
    (hb : ∀ b ∈ ip, b < 256) : parseIP (ipString ip) = some (to16 ip) := by
  have hdotted : ∀ {ip4 : List Nat}, ip4.length = 4 → (∀ b ∈ ip4, b < 256) →
      parseIP (".".intercalate (ip4.map toString)) = some (v4Prefix ++ ip4) := by
    intro ip4 hl hb
    obtain ⟨a, b, c, d, rfl⟩ : ∃ a b c d, ip4 = [a, b, c, d] := by
      obtain ⟨a, rest, rfl⟩ := List.exists_cons_of_length_eq_add_one hl
      obtain ⟨b, rest, rfl⟩ := List.exists_cons_of_length_eq_add_one (Nat.succ.inj hl)
      obtain ⟨c, rest, rfl⟩ := List.exists_cons_of_length_eq_add_one (Nat.succ.inj (Nat.succ.inj hl))
      obtain ⟨d, rest, rfl⟩ := List.exists_cons_of_length_eq_add_one
        (Nat.succ.inj (Nat.succ.inj (Nat.succ.inj hl)))
      have hnil : rest = [] := List.eq_nil_of_length_eq_zero
        (Nat.succ.inj (Nat.succ.inj (Nat.succ.inj (Nat.succ.inj hl))))
      exact ⟨a, b, c, d, by rw [hnil]⟩
    exact parseIP_dotted (hb a (by simp)) (hb b (by simp)) (hb c (by simp)) (hb d (by simp))
  have hne : ip ≠ [] := by
    rintro rfl
    rcases hlen with h | h <;> cases h
  unfold ipString to16
  rw [if_neg hne, if_neg (by omega)]
  rcases hlen with h | h
  · have h4 : ipTo4 ip = some ip := if_pos h
    rw [h4, if_pos h]
    exact hdotted h hb
  · have h16 : ipTo4 ip = to4 ip := by
      unfold ipTo4
      rw [if_neg (by omega), if_pos h]
    rw [h16, if_neg (by omega)]
    unfold to4
    by_cases hmap : ip.take 12 = v4Prefix
    · rw [if_pos hmap]
      dsimp only
      rw [hdotted (by rw [List.length_drop, h]) fun b hm => hb b (List.mem_of_mem_drop hm), ← hmap,
        List.take_append_drop]
    · rw [if_neg hmap]
      dsimp only
      rw [parseIP_groups (by rw [length_hexGroups, h]) (hexGroups_lt hb),
        groupBytes_hexGroups (by omega) hb]

end Etherchimp
