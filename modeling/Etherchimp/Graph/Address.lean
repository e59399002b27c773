import Etherchimp.Capture.Address
import Etherchimp.Lib.Separator

/-!
# Which addresses are groups, which MACs are identities

Three tests the graph applies to an endpoint before it decides which node the
endpoint belongs to, and the separator edge ids are joined with.
-/

namespace Etherchimp

/-- Multicast and broadcast addresses with a label of their own. -/
def wellKnownGroups : List (String × String) :=
  [("224.0.0.251", "mDNS (group)"),
   ("ff02::fb", "mDNS (group)"),
   ("239.255.255.250", "SSDP (group)"),
   ("ff02::c", "SSDP (group)"),
   ("224.0.0.252", "LLMNR (group)"),
   ("ff02::1:3", "LLMNR (group)"),
   ("224.0.0.5", "OSPF (group)"),
   ("224.0.0.6", "OSPF (group)"),
   ("224.0.0.1", "All Hosts (group)"),
   ("224.0.0.2", "All Routers (group)"),
   ("224.0.0.22", "IGMP (group)"),
   ("255.255.255.255", "Broadcast")]

/-- Lowercase ASCII text. -/
def toLowerASCII (s : String) : String := String.ofList (s.toList.map Char.toLower)

/--
The label of a multicast or broadcast address, `none` for an ordinary one (and
for ids that are no IP address). Only ASCII text can be an address, so lowering
is the ASCII one.
-/
def groupAddressLabel (ipStr : String) : Option String :=
  let lower := toLowerASCII ipStr
  match wellKnownGroups.lookup lower with
  | some label => some label
  | none =>
      match parseIP ipStr with
      | none => none
      | some ip =>
          match to4 ip with
          | some ip4 =>
              if 224 ≤ ip4.getD 0 0 ∧ ip4.getD 0 0 ≤ 239 then some "Multicast (group)"
              else if ip4 = [255, 255, 255, 255] then some "Broadcast"
              -- directed broadcast of a typical /24
              else if ip4.getD 3 0 = 255 then some "Broadcast"
              else none
          | none =>
              if "ff".toList.isPrefixOf lower.toList then some "Multicast (group)" else none

/-- Every label `groupAddressLabel` can return. -/
def groupLabels : List String :=
  wellKnownGroups.map Prod.snd ++ ["Multicast (group)", "Broadcast"]

private theorem mem_of_lookup {α β : Type} [BEq α] [LawfulBEq α] {a : α} {b : β} :
    ∀ {l : List (α × β)}, l.lookup a = some b → (a, b) ∈ l
  | (a', b') :: l, h => by
      rw [List.lookup_cons] at h
      split at h
      · rename_i he
        rw [Option.some.injEq] at h
        rw [eq_of_beq he, h]
        exact List.mem_cons_self ..
      · exact List.mem_cons_of_mem _ (mem_of_lookup h)

theorem groupAddressLabel_mem {ip label : String} (h : groupAddressLabel ip = some label) :
    label ∈ groupLabels := by
  unfold groupAddressLabel at h
  unfold groupLabels
  dsimp only at h
  split at h
  · rename_i l hl
    cases h
    exact List.mem_append_left _ (List.mem_map.mpr ⟨_, mem_of_lookup hl, rfl⟩)
  · refine List.mem_append_right _ ?_
    split at h
    · cases h
    · split at h
      · repeat' split at h
        all_goals simp only [Option.some.injEq, reduceCtorEq] at h
        all_goals simp [← h]
      · split at h
        · simp only [Option.some.injEq] at h
          simp [← h]
        · cases h

/--
Whether a MAC is a stable per-host identity: seventeen characters or more, a
unicast first octet, and not all zero.
-/
def isHostMAC (mac : String) : Bool :=
  if mac.utf8ByteSize < 17 then false
  else
    match mac.toList with
    | a :: b :: _ =>
        match hexNibble a, hexNibble b with
        | some hi, some lo =>
            if (hi * 16 + lo) % 2 ≠ 0 then false
            else mac ≠ "00:00:00:00:00:00"
        | _, _ => false
    | _ => false

/-! ## The edge separator -/

/-- What joins the two endpoints of a canonical edge id. -/
def edgeIDSep : String := "<->"

/-- `s` does not contain the edge separator. -/
def SepFree (s : String) : Prop := ¬ edgeIDSep.toList <:+: s.toList

instance (s : String) : Decidable (SepFree s) := inferInstanceAs (Decidable (¬ _))

theorem edgeIDSep_unbordered : Separator.Unbordered edgeIDSep.toList :=
  Separator.unbordered_of_tails (by decide)

theorem groupAddressLabel_sepFree {ip label : String}
    (h : groupAddressLabel ip = some label) : SepFree label := by
  have : ∀ l ∈ groupLabels, SepFree l := by decide
  exact this label (groupAddressLabel_mem h)

/-- A consistent edge id regardless of direction, with its ordered endpoints. -/
def getCanonicalEdgeID (nodeA nodeB : String) : String × String × String :=
  if nodeA < nodeB then (nodeA ++ edgeIDSep ++ nodeB, nodeA, nodeB)
  else (nodeB ++ edgeIDSep ++ nodeA, nodeB, nodeA)

/-- The edge id alone. -/
def canonKey (a b : String) : String := (getCanonicalEdgeID a b).1

/-- The two orders of a pair have one id. -/
theorem getCanonicalEdgeID_comm (a b : String) :
    getCanonicalEdgeID a b = getCanonicalEdgeID b a := by
  unfold getCanonicalEdgeID
  rcases Std.lt_trichotomy a b with h | h | h
  · rw [if_pos h, if_neg (String.lt_asymm h)]
  · rw [h]
  · rw [if_neg (String.lt_asymm h), if_pos h]

theorem canonKey_comm (a b : String) : canonKey a b = canonKey b a := by
  rw [canonKey, canonKey, getCanonicalEdgeID_comm]

/-- The canonical endpoints are the two nodes, in one of the orders. -/
theorem getCanonicalEdgeID_cases (a b : String) :
    getCanonicalEdgeID a b = (canonKey a b, a, b)
      ∨ getCanonicalEdgeID a b = (canonKey a b, b, a) := by
  unfold canonKey getCanonicalEdgeID
  split
  · exact Or.inl rfl
  · exact Or.inr rfl

/-- Canonical endpoints are canonical. -/
theorem getCanonicalEdgeID_idem {a b k f t : String}
    (h : getCanonicalEdgeID a b = (k, f, t)) : getCanonicalEdgeID f t = (k, f, t) := by
  rcases getCanonicalEdgeID_cases a b with hc | hc
  · rw [h, Prod.mk.injEq, Prod.mk.injEq] at hc
    rw [hc.2.1, hc.2.2, h, hc.2.1, hc.2.2]
  · rw [h, Prod.mk.injEq, Prod.mk.injEq] at hc
    rw [hc.2.1, hc.2.2, getCanonicalEdgeID_comm, h, hc.2.1, hc.2.2]

private theorem canonKey_toList (a b : String) :
    (canonKey a b).toList = a.toList ++ (edgeIDSep.toList ++ b.toList)
      ∨ (canonKey a b).toList = b.toList ++ (edgeIDSep.toList ++ a.toList) := by
  unfold canonKey getCanonicalEdgeID
  split
  · left; simp
  · right; simp

private theorem join_eq {a b c d : String} (ha : SepFree a) (hc : SepFree c)
    (h : a.toList ++ (edgeIDSep.toList ++ b.toList)
      = c.toList ++ (edgeIDSep.toList ++ d.toList)) : a = c ∧ b = d := by
  obtain ⟨h1, h2⟩ := Separator.join_inj edgeIDSep_unbordered ha hc h
  exact ⟨String.toList_inj.mp h1, String.toList_inj.mp h2⟩

/-- Ids without the separator are recovered from the edge id, up to order. -/
theorem canonKey_inj {a b c d : String} (ha : SepFree a) (hb : SepFree b) (hc : SepFree c)
    (hd : SepFree d) (h : canonKey a b = canonKey c d) : (a = c ∧ b = d) ∨ (a = d ∧ b = c) := by
  rcases canonKey_toList a b with h1 | h1 <;> rcases canonKey_toList c d with h2 | h2 <;>
    rw [h, h2] at h1
  · obtain ⟨e1, e2⟩ := join_eq hc ha h1
    exact Or.inl ⟨e1.symm, e2.symm⟩
  · obtain ⟨e1, e2⟩ := join_eq hd ha h1
    exact Or.inr ⟨e1.symm, e2.symm⟩
  · obtain ⟨e1, e2⟩ := join_eq hc hb h1
    exact Or.inr ⟨e2.symm, e1.symm⟩
  · obtain ⟨e1, e2⟩ := join_eq hd hb h1
    exact Or.inl ⟨e2.symm, e1.symm⟩

example : getCanonicalEdgeID "b" "a" = ("a<->b", "a", "b") := by decide
example : isHostMAC "aa:bb:cc:00:11:22" ∧ ¬ isHostMAC "ff:ff:ff:ff:ff:ff" := by decide
example : groupAddressLabel "10.1.2.255" = some "Broadcast" ∧ groupAddressLabel "10.1.2.3" = none := by
  decide

end Etherchimp
