import Etherchimp.Proof.FilterGrammar

/-!
# What a negated comparison matches

The comparisons of addresses, MACs and names decide a match first and negate it last, so
`!=` is the complement of `==`. A port comparison whose value names no port leaves before
the negation with a predicate that is false of every node, for `!=` as for `==`.
-/

namespace Etherchimp

open Wire (Bytes)
open TokKind

section Negation

variable [RuneCase]

/-- The fields whose comparisons can be negated. -/
def isGraphField (w : Bytes) : Bool :=
  isFieldOf ipFields w || isFieldOf macFields w || isFieldOf hostFields w || isFieldOf portFields w

/-- The tokens of `field op "value"`. -/
def compareTokens (field op value : Bytes) : List Token :=
  [⟨tokWord, field⟩, ⟨tokOp, op⟩, ⟨tokString, value⟩]

/-- The operators that ask for equality, and those that ask for its opposite. -/
def eqOps : List Bytes := [ascii "==", ascii "eq"]

def neOps : List Bytes := [ascii "!=", ascii "ne"]

/-- Some result of a predicate's search is a node. -/
def Finds (go : Runtime) (m : Manager) (pred : Predicate) (id : String) : Prop :=
  ∃ r ∈ matching go m pred, r.id = id

/-- Whatever the spelling, `!=` is the complement of `==`, and so is `not` before it. -/
def Complementary (field value : Bytes) : Prop :=
  ∀ eq ∈ eqOps, ∀ ne ∈ neOps, ∀ spelling : Bytes, ∃ pos neg inv : Predicate,
    parseFilter (compareTokens field eq value) = some pos ∧
    parseFilter (compareTokens field ne value) = some neg ∧
    parseFilter (⟨tokNot, spelling⟩ :: compareTokens field eq value) = some inv ∧
    (∀ c, neg c = !pos c) ∧ (∀ c, neg c = inv c) ∧
    ∀ (go : Runtime) (m : Manager), ∀ id ∈ m.nodes,
      (Finds go m pos id ∧ ¬ Finds go m neg id) ∨ (¬ Finds go m pos id ∧ Finds go m neg id)

/-! ## What is parsed -/

theorem parseFilter_yields {ts : List Token} {pred : Predicate}
    (h : Yields (parseOr { toks := ts }) pred { toks := [], sawStructured := true }) :
    parseFilter ts = some pred := by
  obtain ⟨_, e⟩ := h
  rw [parseFilter, e]

/-- Tokens read by `parseNot` as a whole are a filter. -/
theorem parseFilter_not {ts : List Token} {pred : Predicate}
    (h : Yields (parseNot ⟨ts, false⟩) pred ⟨[], true⟩) : parseFilter ts = some pred :=
  parseFilter_yields (parseOr_yields (parseAnd_yields h (andTail_stop (by exact nofun)))
    (orTail_stop (by exact nofun)))

theorem parseNot_compare {field : Bytes} (hf : isField field = true) (op value : Bytes) (saw : Bool) :
    Yields (parseNot ⟨compareTokens field op value, saw⟩) (comparePredicate field op value)
      ⟨[], true⟩ :=
  parseNot_primary (by exact nofun)
    (parsePrimary_compare (.inr rfl) (buildComparison_known hf op value) [] saw)

theorem parseFilter_compare {field : Bytes} (hf : isField field = true) (op value : Bytes) :
    parseFilter (compareTokens field op value) = some (comparePredicate field op value) :=
  parseFilter_not (parseNot_compare hf op value false)

theorem parseFilter_not_compare {field : Bytes} (hf : isField field = true)
    (spelling op value : Bytes) :
    parseFilter (⟨tokNot, spelling⟩ :: compareTokens field op value) =
      some fun c => !comparePredicate field op value c :=
  parseFilter_not (parseNot_not (parseNot_compare hf op value true))

theorem isGraphField_isField {w : Bytes} (h : isGraphField w = true) : isField w = true := by
  rw [isField]
  exact Bool.or_eq_true_iff.mpr (.inl h)

/-! ## The comparisons -/

omit [RuneCase] in
theorem negatable_eq {op : Bytes} (h : op ∈ eqOps) (hit : Bool) : negatable op hit = hit :=
  if_neg ((by decide : ∀ op ∈ eqOps, ¬ (op = ascii "!=" ∨ op = ascii "ne")) op h)

omit [RuneCase] in
theorem negatable_ne {op : Bytes} (h : op ∈ neOps) (hit : Bool) : negatable op hit = !hit :=
  if_pos ((by decide : ∀ op ∈ neOps, op = ascii "!=" ∨ op = ascii "ne") op h)

omit [RuneCase] in
theorem textHit_sign {op : Bytes} (h : op ∈ eqOps ++ neOps) (s v : Bytes) :
    textHit op s v = (s == v) :=
  if_neg ((by decide : ∀ op ∈ eqOps ++ neOps, op ≠ ascii "contains") op h)

variable {eq ne : Bytes} (heq : eq ∈ eqOps) (hne : ne ∈ neOps)
include heq hne

theorem ipComparison_ne (value : Bytes) (c : NodeCtx) :
    ipComparison ne value c = !ipComparison eq value c := by
  cases hv : parseCIDR (latin1 value) with
  | some cidr => simp only [ipComparison, hv, negatable_eq heq, negatable_ne hne]
  | none =>
    simp only [ipComparison, hv, negatable_eq heq, negatable_ne hne,
      textHit_sign (List.mem_append_left _ heq), textHit_sign (List.mem_append_right _ hne)]

theorem macComparison_ne (value : Bytes) (c : NodeCtx) :
    macComparison ne value c = !macComparison eq value c := by
  simp only [macComparison, negatable_eq heq, negatable_ne hne,
    textHit_sign (List.mem_append_left _ heq), textHit_sign (List.mem_append_right _ hne)]

theorem hostComparison_ne (value : Bytes) (c : NodeCtx) :
    hostComparison ne value c = !hostComparison eq value c := by
  simp only [hostComparison, negatable_eq heq, negatable_ne hne,
    textHit_sign (List.mem_append_left _ heq), textHit_sign (List.mem_append_right _ hne)]

omit [RuneCase] in
theorem portComparison_ne {value : Bytes} {pu : UInt16} (hv : portOf value = some pu) (c : NodeCtx) :
    portComparison ne value c = !portComparison eq value c := by
  simp only [portComparison, hv, negatable_eq heq, negatable_ne hne]

/-- Every comparison is negated at its end, but the one of a port that is none. -/
theorem comparePredicate_ne {field value : Bytes} (hf : isGraphField field = true)
    (hv : isFieldOf portFields field = true → (portOf value).isSome = true) (c : NodeCtx) :
    comparePredicate field ne value c = !comparePredicate field eq value c := by
  simp only [isGraphField, Bool.or_eq_true] at hf
  unfold comparePredicate buildComparison
  split_ifs with hi hm hh hp
  · exact ipComparison_ne heq hne value c
  · exact macComparison_ne heq hne value c
  · exact hostComparison_ne heq hne value c
  · obtain ⟨pu, hpu⟩ := Option.isSome_iff_exists.mp (hv hp)
    exact portComparison_ne heq hne hpu c
  all_goals tauto

omit heq hne

theorem isFieldOf_iff {family : List String} {w : Bytes} :
    isFieldOf family w = true ↔ ∃ f ∈ family, ascii f = lowerText w := by
  simp only [isFieldOf, List.any_eq_true, beq_iff_eq]

/-- A port comparison whose value names no port is false of every node. -/
theorem comparePredicate_noPort {field value : Bytes} (hf : isFieldOf portFields field = true)
    (hv : portOf value = none) (op : Bytes) (c : NodeCtx) : comparePredicate field op value c = false := by
  have hother : ∀ family, family = ipFields ∨ family = macFields ∨ family = hostFields →
      ¬ isFieldOf family field = true := by
    intro family hfam h
    obtain ⟨f, hfm, ef⟩ := isFieldOf_iff.mp h
    obtain ⟨g, hgm, eg⟩ := isFieldOf_iff.mp hf
    refine absurd (ef.trans eg.symm) ?_
    rcases hfam with rfl | rfl | rfl
    · exact (by decide : ∀ f ∈ ipFields, ∀ g ∈ portFields, ascii f ≠ ascii g) f hfm g hgm
    · exact (by decide : ∀ f ∈ macFields, ∀ g ∈ portFields, ascii f ≠ ascii g) f hfm g hgm
    · exact (by decide : ∀ f ∈ hostFields, ∀ g ∈ portFields, ascii f ≠ ascii g) f hfm g hgm
  simp only [comparePredicate, buildComparison, hother _ (.inl rfl), hother _ (.inr (.inl rfl)),
    hother _ (.inr (.inr rfl)), hf, Bool.false_eq_true, if_false, if_true, portComparison, hv]

/-! ## The results -/

theorem finds_iff {go : Runtime} {m : Manager} {pred : Predicate} {id : String} :
    Finds go m pred id ↔ ∃ n, m.nodes.lookup id = some n ∧ pred (nodeCtx go m id n) = true := by
  constructor
  · rintro ⟨r, hr, rfl⟩
    obtain ⟨e, he, rfl⟩ := List.mem_map.mp hr
    obtain ⟨hmem, hp⟩ := List.mem_filter.mp he
    exact ⟨e.2, AList.mem_lookup_iff.mpr ((go.rangeOf_perm m.nodes).mem_iff.mp hmem), hp⟩
  · rintro ⟨n, hn, hp⟩
    have hmem : (⟨id, n⟩ : Sigma fun _ : String => Node) ∈ go.rangeOf m.nodes :=
      (go.rangeOf_perm m.nodes).mem_iff.mpr (AList.mem_lookup_iff.mp hn)
    exact ⟨searchResult id n, List.mem_map.mpr ⟨_, List.mem_filter.mpr ⟨hmem, hp⟩, rfl⟩, rfl⟩

/-- Complementary predicates part the nodes. -/
theorem finds_complement {pos neg : Predicate} (h : ∀ c, neg c = !pos c) (go : Runtime) (m : Manager)
    {id : String} (hid : id ∈ m.nodes) :
    (Finds go m pos id ∧ ¬ Finds go m neg id) ∨ (¬ Finds go m pos id ∧ Finds go m neg id) := by
  obtain ⟨n, hn⟩ := Option.isSome_iff_exists.mp (AList.lookup_isSome.mpr hid)
  have hiff : ∀ pred : Predicate, Finds go m pred id ↔ pred (nodeCtx go m id n) = true := by
    intro pred
    rw [finds_iff]
    refine ⟨fun ⟨n', hn', hp⟩ => ?_, fun hp => ⟨n, hn, hp⟩⟩
    rwa [Option.some.inj (hn'.symm.trans hn)] at hp
  rw [hiff, hiff, h]
  cases pos (nodeCtx go m id n) <;> simp

/-- Both predicates are false of a node, so neither is the other's complement. -/
theorem not_complementary_noPort {field value : Bytes} (hfield : isField field = true)
    (hp : isFieldOf portFields field = true) (hv : portOf value = none) :
    ¬ Complementary field value := by
  intro h
  obtain ⟨pos, neg, -, hpos, hneg, -, hcomp, -⟩ :=
    h (ascii "==") (by decide) (ascii "!=") (by decide) []
  rw [parseFilter_compare hfield] at hpos hneg
  let node : Node :=
    { ip := "", hostname := "", ips := [], packetCount := 0, byteCount := 0, lastSeen := 0,
      isGroup := false }
  have hc := hcomp ⟨"", node, ∅⟩
  rw [← Option.some.inj hpos, ← Option.some.inj hneg, comparePredicate_noPort hp hv,
    comparePredicate_noPort hp hv] at hc
  exact Bool.false_ne_true hc

/--
Comparisons of a field with a value are negated to complements, unless the field is a port
and the value names none.
-/
theorem complementary_iff {field : Bytes} (hf : isGraphField field = true) (value : Bytes) :
    Complementary field value ↔
      (isFieldOf portFields field = true → (portOf value).isSome = true) := by
  have hfield := isGraphField_isField hf
  constructor
  · intro h hp
    by_contra hv
    exact not_complementary_noPort hfield hp (Option.not_isSome_iff_eq_none.mp hv) h
  · intro hv eq heq ne hne spelling
    have hcomp := comparePredicate_ne heq hne hf hv
    exact ⟨_, _, _, parseFilter_compare hfield eq value, parseFilter_compare hfield ne value,
      parseFilter_not_compare hfield spelling eq value, hcomp, hcomp,
      fun go m id hid => finds_complement hcomp go m hid⟩

end Negation

theorem complementary_mac : Complementary (ascii "eth.addr") (ascii "zz") ↔
    (isFieldOf portFields (ascii "eth.addr") = true → (portOf (ascii "zz")).isSome = true) :=
  complementary_iff (by decide) (ascii "zz")

/-- No node answers `port != 70000`, as none answers `port == 70000`. -/
theorem complementary_highPort : ¬ Complementary (ascii "port") (ascii "70000") :=
  not_complementary_noPort (by decide) (by decide) (by decide)

end Etherchimp
