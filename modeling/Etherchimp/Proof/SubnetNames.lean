import Etherchimp.Proof.SuperNames

/-!
# The names of subnets

A /24 is named `a.b.c.0/24` after the `a.b.c` of its hosts, a /16 `a.b.0.0/16`, a tail
by the name of its subnet and a `+`. The code goes from one name to another by cutting
suffixes; on names of these shapes the cuts take off what they are meant to.
-/

namespace Etherchimp

/-! ## Suffixes -/

theorem hasSuffix_longer (s t : String) {suffix : String} (hlen : suffix.length ≤ t.length)
    (h : ¬ suffix.toList <:+ t.toList) : hasSuffix (s ++ t) suffix = false := by
  unfold hasSuffix
  rw [decide_eq_false_iff_not, String.toList_append]
  exact not_suffix_append h (by rwa [String.length_toList, String.length_toList])

theorem trimSuffix_append (s suffix : String) : trimSuffix (s ++ suffix) suffix = s := by
  unfold trimSuffix
  rw [String.toList_append, if_pos (List.suffix_append _ _), List.length_append,
    Nat.add_sub_cancel, List.take_left, String.ofList_toList]

theorem trimSuffix_of_not {s suffix : String} (h : ¬ suffix.toList <:+ s.toList) :
    trimSuffix s suffix = s := if_neg h

theorem Proper.base {r : Nat} {cidr : String} (h : Proper r cidr) : baseCIDR cidr = cidr :=
  trimSuffix_of_not h.plain

@[simp] theorem baseCIDR_residual (cidr : String) : baseCIDR (residualSuperID cidr) = cidr :=
  trimSuffix_append cidr "+"

/-! ## Octets -/

theorem beforeLastDot_append (before : String) {last : String} (h : '.' ∉ last.toList) :
    beforeLastDot (before ++ "." ++ last) = some before := by
  have hlast : ∀ c ∈ last.toList.reverse, decide (c ≠ '.') = true := by
    intro c hc
    rw [decide_eq_true_eq]
    rintro rfl
    exact h (List.mem_reverse.mp hc)
  have hrest : (before ++ "." ++ last).toList.reverse.dropWhile (· ≠ '.')
      = '.' :: before.toList.reverse := by
    rw [String.toList_append, String.toList_append, List.reverse_append, List.reverse_append,
      List.dropWhile_append_of_pos hlast]
    rfl
  unfold beforeLastDot
  rw [hrest]
  simp only [List.reverse_reverse, String.ofList_toList]

theorem repr_no_dot (n : Nat) : '.' ∉ n.repr.toList := by
  rw [Nat.toList_repr]
  intro h
  exact absurd (Nat.isDigit_of_mem_toDigits (by decide) (by decide) h) (by decide)

/-- The `a.b.c` of a /24. -/
def net24Text (a b c : Nat) : String := a.repr ++ "." ++ b.repr ++ "." ++ c.repr

/-- The `a.b` of a /16. -/
def net16Text (a b : Nat) : String := a.repr ++ "." ++ b.repr

theorem beforeLastDot_net24 (a b c : Nat) :
    beforeLastDot (net24Text a b c) = some (net16Text a b) :=
  beforeLastDot_append (net16Text a b) (repr_no_dot c)

theorem net24Text_ne_empty (a b c : Nat) : net24Text a b c ≠ "" := by
  intro h
  have h := congrArg beforeLastDot h
  rw [beforeLastDot_net24] at h
  exact absurd h nofun

/-! ## Subnets -/

def cidr24 (a b c : Nat) : String := net24Text a b c ++ ".0/24"

def cidr16 (a b : Nat) : String := net16Text a b ++ ".0.0/16"

theorem proper_cidr24 (a b c : Nat) : Proper 1 (cidr24 a b c) := proper_24 _

theorem proper_cidr16 (a b : Nat) : Proper 2 (cidr16 a b) := proper_16 _

theorem net24Text_ne_cidr (a b c : Nat) : net24Text a b c ≠ cidr24 a b c := by
  intro h
  have hlen : ".0/24".length = 5 := by decide
  have h := congrArg String.length h
  rw [cidr24, String.length_append] at h
  omega

theorem cidr24_ne_empty (a b c : Nat) : cidr24 a b c ≠ "" := by
  intro h
  have hrank := (proper_cidr24 a b c).rank
  rw [h] at hrank
  exact absurd hrank (by decide)

theorem hasSuffix_cidr24 (a b c : Nat) : hasSuffix (cidr24 a b c) "/24" = true := by
  unfold hasSuffix cidr24
  rw [decide_eq_true_eq, String.toList_append]
  exact List.IsSuffix.trans (by decide) (List.suffix_append _ _)

theorem hasSuffix_cidr16 (a b : Nat) : hasSuffix (cidr16 a b) "/16" = true := by
  unfold hasSuffix cidr16
  rw [decide_eq_true_eq, String.toList_append]
  exact List.IsSuffix.trans (by decide) (List.suffix_append _ _)

theorem cidr24_inj {s : String} {a b c : Nat} (h : s ++ ".0/24" = cidr24 a b c) :
    s = net24Text a b c := by
  have h := congrArg (trimSuffix · ".0/24") h
  rwa [cidr24, trimSuffix_append, trimSuffix_append] at h

theorem subnet16From24_cidr24 (a b c : Nat) : subnet16From24 (cidr24 a b c) = cidr16 a b := by
  have hbase : trimSuffix (cidr24 a b c) ".0/24" = net24Text a b c := trimSuffix_append _ _
  unfold subnet16From24
  simp only [hbase, if_neg (net24Text_ne_cidr a b c), beforeLastDot_net24]
  rfl

/-! ## What belongs to a subnet -/

section Belongs

variable {n : Node} {isSuper : String → Bool} {a b c : Nat}

/-- A subnet's supernode and its tail belong to it. -/
theorem belongs_named {r : Nat} {cidr : String} (hc : Proper r cidr)
    (hid : n.ip = cidr ∨ n.ip = residualSuperID cidr) : nodeBelongsToCIDR n cidr isSuper = true := by
  unfold nodeBelongsToCIDR
  simp only [hc.base, if_pos hid, ite_self]

/-- Of the supernodes no other one belongs to a /24. -/
theorem belongs_super24 (hsup : isSuper n.ip = true) :
    nodeBelongsToCIDR n (cidr24 a b c) isSuper = true
      ↔ n.ip = cidr24 a b c ∨ n.ip = residualSuperID (cidr24 a b c) := by
  refine ⟨fun h => ?_, belongs_named (proper_cidr24 a b c)⟩
  have h16 : hasSuffix (cidr24 a b c) "/16" = false := hasSuffix_longer _ _ (by decide) (by decide)
  unfold nodeBelongsToCIDR at h
  simp only [(proper_cidr24 a b c).base, if_neg (cidr24_ne_empty a b c), hsup, h16] at h
  by_contra hid
  rw [if_neg hid] at h
  simp at h

/-- A host belongs to the /24 of its address. -/
theorem belongs_host24 (hplain : '/' ∉ n.ip.toList) (hsup : isSuper n.ip = false) :
    nodeBelongsToCIDR n (cidr24 a b c) isSuper = true ↔ primarySubnet24 n = net24Text a b c := by
  have hid : ¬ (n.ip = cidr24 a b c ∨ n.ip = residualSuperID (cidr24 a b c)) := by
    intro he
    have hrank := (proper_cidr24 a b c).name_rank he
    rw [nameRank_plain hplain] at hrank
    omega
  unfold nodeBelongsToCIDR
  simp only [(proper_cidr24 a b c).base, if_neg (cidr24_ne_empty a b c), if_neg hid, hsup,
    hasSuffix_cidr24, if_true, Bool.false_eq_true, if_false, decide_eq_true_eq]
  constructor
  · exact fun h => cidr24_inj h.2
  · intro h
    rw [h]
    exact ⟨net24Text_ne_empty a b c, rfl⟩

/-- A host belongs to the /16 of its address. -/
theorem belongs_host16 (hsup : isSuper n.ip = false) (hnet : primarySubnet24 n = net24Text a b c) :
    nodeBelongsToCIDR n (cidr16 a b) isSuper = true := by
  have h24 : hasSuffix (cidr16 a b) "/24" = false := hasSuffix_longer _ _ (by decide) (by decide)
  have h16 : subnet16From24 (net24Text a b c ++ ".0/24") = cidr16 a b := subnet16From24_cidr24 a b c
  unfold nodeBelongsToCIDR
  simp [(proper_cidr16 a b).base, hsup, h24, hasSuffix_cidr16, hnet, net24Text_ne_empty, h16]

/-- So does the supernode or the tail of its /24. -/
theorem belongs_super16 (hsup : isSuper n.ip = true)
    (hid : n.ip = cidr24 a b c ∨ n.ip = residualSuperID (cidr24 a b c)) :
    nodeBelongsToCIDR n (cidr16 a b) isSuper = true := by
  have hbase : baseCIDR n.ip = cidr24 a b c := by
    rcases hid with he | he
    · rw [he, (proper_cidr24 a b c).base]
    · rw [he, baseCIDR_residual]
  unfold nodeBelongsToCIDR
  simp [(proper_cidr16 a b).base, hsup, hbase, hasSuffix_cidr24, hasSuffix_cidr16,
    subnet16From24_cidr24]

end Belongs

end Etherchimp
