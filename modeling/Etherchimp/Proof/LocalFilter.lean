import Etherchimp.Lib.Separator
import Etherchimp.Proof.AddressText

/-!
# Local and multicast addresses

The filter names its blocks by prefix length and tests IPv6 text by its first
letters. Text drops the leading zeros of a group, so letters are not bits: the
text of `fe90::1` does not begin with `fe80:` though the address is link-local,
and the text of `ff:1::` begins with `ff` though it is no multicast address. On
all other first groups, and on every IPv4 address, the filter is right.
-/

namespace Etherchimp

open IP

/-! ## The blocks -/

/-- The first sixteen bits of an address. -/
def firstGroup : List Nat → Nat
  | hi :: lo :: _ => hi * 256 + lo
  | _ => 0

@[simp] theorem firstGroup_cons (hi lo : Nat) (ip : List Nat) :
    firstGroup (hi :: lo :: ip) = hi * 256 + lo := rfl

/-- The first `bits` bits of the address are those of `net`. -/
def inBlock (net bits : Nat) (ip : List Nat) : Prop :=
  firstGroup ip / 2 ^ (16 - bits) = net / 2 ^ (16 - bits)

/-- 169.254.0.0/16, 224.0.0.0/4 and 127.0.0.0/8. -/
def LocalV4 (ip4 : List Nat) : Prop :=
  inBlock 0xa9fe 16 ip4 ∨ inBlock 0xe000 4 ip4 ∨ inBlock 0x7f00 8 ip4

/-- fe80::/10, ff00::/8, ::1 and fc00::/7. -/
def LocalV6 (ip : List Nat) : Prop :=
  inBlock 0xfe80 10 ip ∨ inBlock 0xff00 8 ip ∨ ip = ipv6Loopback ∨ inBlock 0xfc00 7 ip

/-- The address is in one of the blocks the filter names, a mapped one in those of IPv4. -/
def LocalAddress (ip : List Nat) : Prop :=
  match ipTo4 ip with
  | some ip4 => LocalV4 ip4
  | none => LocalV6 ip

/-- The answer of a test, when it is that of a proposition. -/
def Answers (r : Except Panic Bool) (p : Prop) : Prop := ∃ b, r = .ok b ∧ (b = true ↔ p)

/-- Both forms of the filter answer for the blocks. -/
def FilterRight (ip : List Nat) : Prop :=
  Answers (isLocalOrMulticastIP ip) (LocalAddress ip) ∧
    Answers (isLocalOrMulticastAddress (ipString ip)) (LocalAddress ip)

/--
The first groups whose text is misread: the rest of fe80::/10, and the short
groups that are written with the letters of a block.
-/
def Misread (ip : List Nat) : Prop :=
  let g := firstGroup ip
  ip.length = 16 ∧ (0xfe81 ≤ g ∧ g ≤ 0xfebf ∨ g = 0xff ∨ 0xff0 ≤ g ∧ g ≤ 0xfff
    ∨ g = 0xfc ∨ g = 0xfd ∨ 0xfc0 ≤ g ∧ g ≤ 0xfdf)

/-! ## The first letters of a text -/

theorem digitChar_inj : ∀ x < 16, ∀ y < 16, Nat.digitChar x = Nat.digitChar y → x = y := by decide

theorem digitChar_ne_colon {x : Nat} (hx : x < 16) : Nat.digitChar x ≠ ':' := by
  intro h
  have := hexNibble_digitChar x hx
  rw [h, colon_not_digit] at this
  cases this

/-- Two digits begin a text exactly when they are the first two of its first group. -/
theorem two_digits_prefix {g x y : Nat} (hg : g < 65536) (hx : x < 16) (hy : y < 16) (hpos : 0 < x)
    (s : List Char) : [Nat.digitChar x, Nat.digitChar y] <+: Nat.toDigits 16 g ++ ':' :: s
      ↔ g = 16 * x + y ∨ g / 16 = 16 * x + y ∨ g / 256 = 16 * x + y := by
  have hpair : ∀ {u v : Nat} {rest : List Char}, u < 16 → v < 16 →
      ([Nat.digitChar x, Nat.digitChar y] <+: Nat.digitChar u :: Nat.digitChar v :: rest
        ↔ x = u ∧ y = v) := by
    intro u v rest hu hv
    rw [List.cons_prefix_cons, List.cons_prefix_cons]
    constructor
    · rintro ⟨hxu, hyv, -⟩
      exact ⟨digitChar_inj x hx u hu hxu, digitChar_inj y hy v hv hyv⟩
    · rintro ⟨rfl, rfl⟩
      exact ⟨rfl, rfl, List.nil_prefix⟩
  have hmore : ∀ n, 16 ≤ n → Nat.toDigits 16 n = Nat.toDigits 16 (n / 16) ++ [Nat.digitChar (n % 16)] :=
    fun n hn => Nat.toDigits_of_base_le (by decide) hn
  -- by the number of digits of the group
  rcases Nat.lt_or_ge g 16 with h1 | h1
  · rw [Nat.toDigits_of_lt_base h1, List.singleton_append, List.cons_prefix_cons,
      List.cons_prefix_cons]
    refine iff_of_false (fun h => digitChar_ne_colon hy h.2.1) ?_
    omega
  rw [hmore g h1]
  rcases Nat.lt_or_ge (g / 16) 16 with h2 | h2
  · rw [Nat.toDigits_of_lt_base h2]
    refine (hpair h2 (by omega)).trans ?_
    omega
  rw [hmore _ h2]
  rcases Nat.lt_or_ge (g / 16 / 16) 16 with h3 | h3
  · rw [Nat.toDigits_of_lt_base h3]
    refine (hpair h3 (by omega)).trans ?_
    omega
  rw [hmore _ h3, Nat.toDigits_of_lt_base (by omega : g / 16 / 16 / 16 < 16)]
  refine (hpair (by omega) (by omega)).trans ?_
  omega

/-- The digits of a number determine it. -/
theorem toDigits_inj {m n : Nat} (h : Nat.toDigits 16 m = Nat.toDigits 16 n) : m = n := by
  have hm := @takeHex_group m [] (Or.inl rfl)
  rw [h, takeHex_group n (Or.inl rfl)] at hm
  exact (Prod.mk.inj hm).1.symm

theorem colon_notMem_toDigits (n : Nat) : ':' ∉ Nat.toDigits 16 n := by
  intro h
  obtain ⟨d, hd⟩ := hexNibble_of_mem h
  rw [colon_not_digit] at hd
  cases hd

/-- A whole first group begins a text exactly when it is the first group. -/
theorem group_prefix {g n : Nat} (s : List Char) :
    Nat.toDigits 16 n ++ [':'] <+: Nat.toDigits 16 g ++ ':' :: s ↔ g = n := by
  constructor
  · rintro ⟨t, ht⟩
    rw [List.append_assoc] at ht
    exact (toDigits_inj (Separator.first_inj (colon_notMem_toDigits n) (colon_notMem_toDigits g)
      ht).1).symm
  · rintro rfl
    exact ⟨s, by rw [List.append_assoc]; rfl⟩

/-- A text of groups is in lower case already. -/
theorem toLowerASCII_ipv6Text (gs : List Nat) :
    (toLowerASCII (ipv6Text gs)).toList = (ipv6Text gs).toList := by
  have hdigit : ∀ d < 16, (Nat.digitChar d).toLower = Nat.digitChar d := by decide
  have hgroup : ∀ n, ∀ c ∈ Nat.toDigits 16 n, c.toLower = c := by
    intro n
    induction n using digits_induction with
    | hdigit d hd =>
      intro c hc
      rw [Nat.toDigits_of_lt_base hd, List.mem_singleton] at hc
      rw [hc, hdigit d hd]
    | hmore n hn ih =>
      intro c hc
      rw [Nat.toDigits_of_base_le (by decide) hn, List.mem_append, List.mem_singleton] at hc
      rcases hc with hc | rfl
      · exact ih c hc
      · exact hdigit _ (by omega)
  have hgroups : ∀ gs : List Nat, ∀ c ∈ groupChars gs, c.toLower = c := by
    intro gs
    induction gs with
    | nil => exact fun c hc => absurd hc List.not_mem_nil
    | cons g gs ih =>
      intro c hc
      by_cases hnil : gs = []
      · subst hnil
        exact hgroup g c hc
      · rw [groupChars_cons hnil, List.mem_append, List.mem_cons] at hc
        rcases hc with hc | rfl | hc
        · exact hgroup g c hc
        · rfl
        · exact ih c hc
  unfold toLowerASCII
  rw [String.toList_ofList, List.map_congr_left (g := id), List.map_id]
  intro c hc
  rw [ipv6Text_toList] at hc
  split at hc
  · exact hgroups gs c hc
  · rw [List.mem_append, List.mem_cons, List.mem_cons] at hc
    rcases hc with hc | rfl | rfl | hc
    · exact hgroups _ c hc
    · rfl
    · rfl
    · exact hgroups _ c hc

/-! ## The two forms -/

theorem isLocalV4_answers {ip4 : List Nat} (hlen : ip4.length = 4) (hb : ∀ b ∈ ip4, b < 256) :
    Answers (isLocalV4 ip4) (LocalV4 ip4) := by
  obtain ⟨a, b, rest, rfl⟩ : ∃ a b rest, ip4 = a :: b :: rest := by
    obtain ⟨a, rest, rfl⟩ := List.exists_cons_of_length_eq_add_one hlen
    obtain ⟨b, rest, rfl⟩ := List.exists_cons_of_length_eq_add_one (Nat.succ.inj hlen)
    exact ⟨a, b, rest, rfl⟩
  have ha := hb a (by simp)
  have hlo := hb b (by simp)
  have hrun : isLocalV4 (a :: b :: rest)
      = .ok ((decide (a = 169) && decide (b = 254)) || decide (224 ≤ a ∧ a ≤ 239)
        || decide (a = 127)) := by
    show (do
      let linkLocal ← Panic.andThen (decide (a = 169)) (.ok (decide (b = 254)))
      return linkLocal || decide (224 ≤ a ∧ a ≤ 239) || decide (a = 127)) = _
    generalize decide (a = 169) = x
    cases x <;> rfl
  refine ⟨_, hrun, ?_⟩
  rw [Bool.or_eq_true, Bool.or_eq_true, Bool.and_eq_true, decide_eq_true_iff, decide_eq_true_iff,
    decide_eq_true_iff, decide_eq_true_iff]
  unfold LocalV4 inBlock
  simp only [firstGroup_cons, Nat.reduceSub, Nat.reducePow, Nat.reduceDiv]
  omega

theorem ipTo4_to16 {ip : List Nat} (hlen : ip.length = 4 ∨ ip.length = 16) :
    ipTo4 (to16 ip) = ipTo4 ip := by
  unfold to16
  rcases hlen with h | h
  · have hlen' : (v4Prefix ++ ip).length = 16 := by
      rw [List.length_append, h]
      rfl
    unfold ipTo4 to4
    rw [if_pos h, if_pos h, if_neg (by omega), if_pos hlen', List.take_left' (by rfl), if_pos rfl,
      List.drop_left' (by rfl)]
  · rw [if_neg (by omega)]

/-- **The two forms of the filter agree.** -/
theorem isLocalOrMulticastIP_eq {ip : List Nat} (hlen : ip.length = 4 ∨ ip.length = 16)
    (hb : ∀ b ∈ ip, b < 256) :
    isLocalOrMulticastIP ip = isLocalOrMulticastAddress (ipString ip) := by
  unfold isLocalOrMulticastIP
  cases h4 : ipTo4 ip with
  | none => rfl
  | some ip4 =>
    unfold isLocalOrMulticastAddress
    rw [parseIP_ipString hlen hb]
    dsimp only
    rw [ipTo4_to16 hlen, h4]

/-- What the letters of the text answer, for an address that is no IPv4 one. -/
theorem isLocalOrMulticastAddress_v6 {ip : List Nat} (hlen : ip.length = 16)
    (hb : ∀ b ∈ ip, b < 256) (h4 : ipTo4 ip = none) :
    let g := firstGroup ip
    Answers (isLocalOrMulticastAddress (ipString ip))
      (g = 0xfe80 ∨ (g = 0xff ∨ g / 16 = 0xff ∨ g / 256 = 0xff) ∨ ip = ipv6Loopback
        ∨ (g = 0xfc ∨ g / 16 = 0xfc ∨ g / 256 = 0xfc)
        ∨ (g = 0xfd ∨ g / 16 = 0xfd ∨ g / 256 = 0xfd)) := by
  have htext : ipString ip = ipv6Text (hexGroups ip) := by
    unfold ipString
    rw [if_neg (by rintro rfl; cases hlen), if_neg (by omega), h4]
  have hto : to16 ip = ip := if_neg (by omega)
  unfold isLocalOrMulticastAddress
  rw [parseIP_ipString (Or.inr hlen) hb, hto]
  dsimp only
  rw [h4]
  dsimp only
  rw [htext, toLowerASCII_ipv6Text]
  refine ⟨_, rfl, ?_⟩
  obtain ⟨hi, lo, rest, rfl⟩ : ∃ hi lo rest, ip = hi :: lo :: rest := by
    obtain ⟨hi, rest, rfl⟩ := List.exists_cons_of_length_eq_add_one hlen
    obtain ⟨lo, rest, rfl⟩ := List.exists_cons_of_length_eq_add_one (Nat.succ.inj hlen)
    exact ⟨hi, lo, rest, rfl⟩
  have hhi := hb hi (by simp)
  have hlo := hb lo (by simp)
  have hg : hi * 256 + lo < 65536 := by omega
  have hne : hexGroups rest ≠ [] := by
    intro h
    have hlen' := length_hexGroups rest
    rw [h, List.length_nil] at hlen'
    rw [List.length_cons, List.length_cons] at hlen
    omega
  have hgroups : hexGroups (hi :: lo :: rest) = (hi * 256 + lo) :: hexGroups rest := rfl
  rw [hgroups, firstGroup_cons]
  simp only [Bool.or_eq_true, decide_eq_true_iff, List.isPrefixOf_iff_prefix, or_assoc]
  have hff : "ff".toList = [Nat.digitChar 15, Nat.digitChar 15] := rfl
  have hfc : "fc".toList = [Nat.digitChar 15, Nat.digitChar 12] := rfl
  have hfd : "fd".toList = [Nat.digitChar 15, Nat.digitChar 13] := rfl
  have hfe80 : "fe80:".toList = Nat.toDigits 16 0xfe80 ++ [':'] := by decide
  rcases ipv6Text_front (g := hi * 256 + lo) hne with ⟨hzero, s, hs⟩ | ⟨s, hs⟩
  · -- a leading `::` is the beginning of no block but the loopback's
    have hno : ∀ {l : List Char} {c : Char}, c ≠ ':' → ¬ c :: l <+: ':' :: ':' :: s := by
      intro l c hc h
      exact hc (List.cons_prefix_cons.mp h).1
    have h1 : ¬ "fe80:".toList <+: ':' :: ':' :: s := hno (by decide)
    have h2 : ¬ "ff".toList <+: ':' :: ':' :: s := hno (by decide)
    have h3 : ¬ "fc".toList <+: ':' :: ':' :: s := hno (by decide)
    have h4 : ¬ "fd".toList <+: ':' :: ':' :: s := hno (by decide)
    rw [hs, hzero, iff_false_intro h1, iff_false_intro h2, iff_false_intro h3, iff_false_intro h4]
    simp
  · rw [hs, hff, hfc, hfd, hfe80, group_prefix,
      two_digits_prefix hg (by decide) (by decide) (by decide),
      two_digits_prefix hg (by decide) (by decide) (by decide),
      two_digits_prefix hg (by decide) (by decide) (by decide)]
    simp only [or_assoc]

/-! ## Where the filter is right -/

theorem Answers.iff_right {r : Except Panic Bool} {p q : Prop} (h : Answers r p) :
    Answers r q ↔ (p ↔ q) := by
  obtain ⟨b, hb, hp⟩ := h
  constructor
  · rintro ⟨b', hb', hq⟩
    rw [hb] at hb'
    cases hb'
    exact hp.symm.trans hq
  · exact fun hpq => ⟨b, hb, hp.trans hpq⟩

theorem firstGroup_lt {ip : List Nat} (hb : ∀ b ∈ ip, b < 256) : firstGroup ip < 65536 := by
  unfold firstGroup
  split
  · rename_i hi lo rest
    have hhi := hb hi (by simp)
    have hlo := hb lo (by simp)
    omega
  · omega

/-- An address of IPv4 has a first group no block is misread on. -/
theorem not_misread_v4 {ip ip4 : List Nat} (h4 : ipTo4 ip = some ip4) : ¬ Misread ip := by
  rintro ⟨hlen, hg⟩
  unfold ipTo4 at h4
  rw [if_neg (by omega), if_pos hlen] at h4
  unfold to4 at h4
  split at h4
  · rename_i hmap
    -- a mapped address begins with zeros
    obtain ⟨hi, rest, rfl⟩ := List.exists_cons_of_length_eq_add_one hlen
    obtain ⟨lo, rest, rfl⟩ := List.exists_cons_of_length_eq_add_one (Nat.succ.inj hlen)
    have hzero : hi = 0 ∧ lo = 0 := by
      have hcons : hi :: lo :: rest.take 10 = 0 :: 0 :: (List.replicate 8 0 ++ [255, 255]) := hmap
      rw [List.cons.injEq, List.cons.injEq] at hcons
      exact ⟨hcons.1, hcons.2.1⟩
    rw [firstGroup_cons] at hg
    omega
  · cases h4

/--
**The filter is right except where letters are not bits.** For every address of
four or sixteen bytes the two forms of the filter agree; they answer for the
named blocks if and only if the first group is none of the misread ones.
-/
theorem localFilter_iff (ip : List Nat) (hlen : ip.length = 4 ∨ ip.length = 16)
    (hb : ∀ b ∈ ip, b < 256) :
    isLocalOrMulticastIP ip = isLocalOrMulticastAddress (ipString ip)
    ∧ (FilterRight ip ↔ ¬ Misread ip) := by
  have hagree := isLocalOrMulticastIP_eq hlen hb
  refine ⟨hagree, ?_⟩
  unfold FilterRight
  rw [hagree, and_self]
  cases h4 : ipTo4 ip with
  | some ip4 =>
    refine iff_of_true ?_ (not_misread_v4 h4)
    have hmem : ∀ b ∈ ip4, b < 256 := by
      intro b hm
      unfold ipTo4 to4 at h4
      split at h4
      · exact hb b (Option.some.inj h4 ▸ hm)
      · split at h4
        · split at h4
          · exact hb b (List.mem_of_mem_drop (Option.some.inj h4 ▸ hm))
          · cases h4
        · cases h4
    have hip : isLocalOrMulticastIP ip = isLocalV4 ip4 := by
      unfold isLocalOrMulticastIP
      rw [h4]
    have hloc : LocalAddress ip = LocalV4 ip4 := by
      unfold LocalAddress
      rw [h4]
    rw [← hagree, hip, hloc]
    exact isLocalV4_answers (ipTo4_length h4) hmem
  | none =>
    have h16 : ip.length = 16 := hlen.resolve_left fun h => by
      unfold ipTo4 at h4
      rw [if_pos h] at h4
      cases h4
    have hloc : LocalAddress ip = LocalV6 ip := by
      unfold LocalAddress
      rw [h4]
    have hlt := firstGroup_lt hb
    rw [hloc, (isLocalOrMulticastAddress_v6 h16 hb h4).iff_right]
    by_cases hloop : ip = ipv6Loopback
    · have hzero : firstGroup ip = 0 := by
        rw [hloop]
        rfl
      refine iff_of_true ?_ ?_
      · exact iff_of_true (Or.inr (Or.inr (Or.inl hloop))) (Or.inr (Or.inr (Or.inl hloop)))
      · rintro ⟨-, hg⟩
        rw [hzero] at hg
        omega
    · unfold LocalV6 inBlock Misread
      simp only [hloop, false_or, h16, true_and]
      generalize firstGroup ip = g at hlt ⊢
      simp only [Nat.reduceSub, Nat.reducePow, Nat.reduceDiv]
      omega

/-- `ff02::fb`, the multicast address of mDNS. -/
def mdnsV6 : List Nat := [255, 2] ++ List.replicate 13 0 ++ [251]

theorem localFilter_mdnsV6 : FilterRight mdnsV6 ∧ LocalAddress mdnsV6 :=
  ⟨(localFilter_iff mdnsV6 (by decide) (by decide)).2.mpr fun h => absurd h.2 (by decide),
    Or.inr (.inl (show firstGroup mdnsV6 / 2 ^ 8 = 0xff00 / 2 ^ 8 by decide))⟩

/-- `fe90::1`, link-local and kept. -/
def lateLinkLocal : List Nat := [254, 144] ++ List.replicate 13 0 ++ [1]

/-- `ff:1::`, no multicast address and dropped. -/
def shortGroup : List Nat := [0, 255, 0, 1] ++ List.replicate 12 0

theorem localFilter_misread :
    isLocalOrMulticastIP lateLinkLocal = .ok false ∧ LocalAddress lateLinkLocal
    ∧ isLocalOrMulticastIP shortGroup = .ok true ∧ ¬ LocalAddress shortGroup
    ∧ ¬ FilterRight lateLinkLocal ∧ ¬ FilterRight shortGroup := by
  have hlate : isLocalOrMulticastIP lateLinkLocal = .ok false := by decide
  have hshort : isLocalOrMulticastIP shortGroup = .ok true := by decide
  have hlocal : LocalAddress lateLinkLocal :=
    Or.inl (show firstGroup lateLinkLocal / 2 ^ 6 = 0xfe80 / 2 ^ 6 by decide)
  have hnot : ¬ LocalAddress shortGroup := by
    show ¬ (firstGroup shortGroup / 2 ^ 6 = 0xfe80 / 2 ^ 6
      ∨ firstGroup shortGroup / 2 ^ 8 = 0xff00 / 2 ^ 8 ∨ shortGroup = ipv6Loopback
      ∨ firstGroup shortGroup / 2 ^ 9 = 0xfc00 / 2 ^ 9)
    decide
  refine ⟨hlate, hlocal, hshort, hnot, ?_, ?_⟩
  · rintro ⟨⟨b, hb, hiff⟩, -⟩
    rw [hlate] at hb
    cases hb
    exact absurd (hiff.mpr hlocal) (by decide)
  · rintro ⟨⟨b, hb, hiff⟩, -⟩
    rw [hshort] at hb
    cases hb
    exact hnot (hiff.mp rfl)

end Etherchimp
