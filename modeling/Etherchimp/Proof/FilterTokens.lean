import Etherchimp.Graph.Filter

/-!
# Where the tokenizer ends

An iteration of the tokenizer that meets a `=`, `&` or `|` which its neighbour does not
double falls through to the bareword case, whose own loop stops at once at such a byte:
the index stays and the next iteration does the same again. On every other byte the
index moves. So the loop ends exactly on the texts where, outside quotes, those three
stand in pairs, and then after at most one iteration a byte.
-/

namespace Etherchimp

open Wire (Bytes)
open TokKind

/-! ## The texts the loop ends on -/

/-- The bytes that are delimiters but mean something only in a pair. -/
def isHalf (c : UInt8) : Bool := c == '='.toUInt8 || c == '&'.toUInt8 || c == '|'.toUInt8

/--
Outside quoted text every `=` stands in `==` or `!=`, every `&` in `&&` and every `|` in
`||`, pairs being read from the left. The argument is the quote the text starts in.
-/
def paired : Option UInt8 → Bytes → Bool
  | _, [] => true
  | some q, c :: r => if c = q then paired none r else paired (some q) r
  | none, c :: r =>
      if isQuote c then paired (some c) r
      else if c = '!'.toUInt8 then
        match r with
        | [] => true
        | d :: r' => if d = '='.toUInt8 then paired none r' else paired none (d :: r')
      else if isHalf c then
        match r with
        | [] => false
        | d :: r' => d == c && paired none r'
      else paired none r

/-- An unread text whose first byte is half of a pair that is not there. -/
def Stuck : Bytes → Prop
  | [] => False
  | c :: r => isHalf c = true ∧ r.head? ≠ some c

instance : DecidablePred Stuck
  | [] => inferInstanceAs (Decidable False)
  | c :: r => inferInstanceAs (Decidable (isHalf c = true ∧ r.head? ≠ some c))

/-! ## The classes of bytes -/

theorem isWordByte_plain {c : UInt8} (h : isWordByte c = true) :
    isBlank c = false ∧ isQuote c = false ∧ isHalf c = false ∧ c ≠ '('.toUInt8 ∧ c ≠ ')'.toUInt8 ∧
      c ≠ '!'.toUInt8 := by
  simp only [isWordByte, Bool.not_eq_true', Bool.or_eq_false_iff, beq_eq_false_iff_ne] at h
  simp only [isHalf, Bool.or_eq_false_iff, beq_eq_false_iff_ne]
  tauto

/-- A byte no case of the tokenizer names is one of a word or half of a pair. -/
theorem isWordByte_of_rest {c : UInt8} (hs : isBlank c = false) (hl : c ≠ '('.toUInt8)
    (hr : c ≠ ')'.toUInt8) (hq : isQuote c = false) (hb : c ≠ '!'.toUInt8) (hh : isHalf c = false) :
    isWordByte c = true := by
  simp only [isHalf, Bool.or_eq_false_iff, beq_eq_false_iff_ne] at hh
  simp only [isWordByte, Bool.not_eq_true', Bool.or_eq_false_iff, beq_eq_false_iff_ne]
  tauto

theorem isHalf_not_word {c : UInt8} (h : isHalf c = true) : isWordByte c = false := by
  by_contra hw
  rw [(isWordByte_plain (Bool.not_eq_false _ ▸ hw)).2.2.1] at h
  exact Bool.false_ne_true h

theorem isBlank_plain {c : UInt8} (h : isBlank c = true) :
    isQuote c = false ∧ isHalf c = false ∧ c ≠ '!'.toUInt8 := by
  simp only [isBlank, Bool.or_eq_true, beq_iff_eq] at h
  rcases h with ((rfl | rfl) | rfl) | rfl <;> decide

theorem isQuote_plain {c : UInt8} (h : isQuote c = true) :
    isBlank c = false ∧ c ≠ '('.toUInt8 ∧ c ≠ ')'.toUInt8 := by
  simp only [isQuote, Bool.or_eq_true, beq_iff_eq] at h
  rcases h with rfl | rfl <;> decide

theorem isHalf_plain {c : UInt8} (h : isHalf c = true) :
    isQuote c = false ∧ c ≠ '!'.toUInt8 := by
  simp only [isHalf, Bool.or_eq_true, beq_iff_eq] at h
  rcases h with (rfl | rfl) | rfl <;> decide

/-! ## What the condition says of a text's beginning -/

theorem paired_cons (c : UInt8) (r : Bytes) :
    paired none (c :: r) =
      if isQuote c then paired (some c) r
      else if c = '!'.toUInt8 then
        paired none (if r.head? = some '='.toUInt8 then r.drop 1 else r)
      else if isHalf c then decide (r.head? = some c) && paired none (r.drop 1)
      else paired none r := by
  cases r with
  | nil => simp [paired]
  | cons d r' =>
    simp only [paired, List.head?_cons, Option.some.injEq, List.drop_one, List.tail_cons]
    split
    · rfl
    · split
      · split <;> rfl
      · rfl

theorem paired_word : ∀ {w : Bytes}, (∀ c ∈ w, isWordByte c = true) → ∀ r : Bytes,
    paired none (w ++ r) = paired none r
  | [], _, _ => rfl
  | c :: w, h, r => by
    have hc := isWordByte_plain (h c List.mem_cons_self)
    rw [List.cons_append, paired_cons, if_neg (by rw [hc.2.1]; exact Bool.false_ne_true),
      if_neg hc.2.2.2.2.2, if_neg (by rw [hc.2.2.1]; exact Bool.false_ne_true)]
    exact paired_word (fun d hd => h d (List.mem_cons_of_mem _ hd)) r

theorem paired_quoted (q : UInt8) : ∀ r : Bytes,
    paired (some q) r = paired none (r.drop (quotedSize q r))
  | [] => by simp [paired, quotedSize]
  | c :: r => by
    rcases eq_or_ne c q with rfl | hc
    · simp [paired, quotedSize]
    · have hs : quotedSize q (c :: r) = quotedSize q r + 1 := by
        simp only [quotedSize, ne_eq, hc, not_false_eq_true, decide_true, List.takeWhile_cons_of_pos,
          List.length_cons, Nat.add_lt_add_iff_right]
        split <;> rfl
      rw [paired, if_neg hc, paired_quoted q r, hs, List.drop_succ_cons]

/-- A byte that begins no pair and no quoted string is passed over. -/
theorem paired_one {c : UInt8} {r : Bytes} (hq : isQuote c = false) (hh : isHalf c = false)
    (hb : c = '!'.toUInt8 → r.head? ≠ some '='.toUInt8) : paired none (c :: r) = paired none r := by
  rw [paired_cons, if_neg (by rw [hq]; exact Bool.false_ne_true)]
  split
  · next h => rw [if_neg (hb h)]
  · rw [if_neg (by rw [hh]; exact Bool.false_ne_true)]

theorem paired_bang {r : Bytes} (hd : r.head? = some '='.toUInt8) :
    paired none ('!'.toUInt8 :: r) = paired none (r.drop 1) := by
  rw [paired_cons, if_neg (by decide), if_pos rfl, if_pos hd]

theorem paired_half {c : UInt8} (r : Bytes) (hh : isHalf c = true) :
    paired none (c :: r) = (decide (r.head? = some c) && paired none (r.drop 1)) := by
  have hc := isHalf_plain hh
  rw [paired_cons, if_neg (by rw [hc.1]; exact Bool.false_ne_true), if_neg hc.2, if_pos hh]

theorem paired_stuck {s : Bytes} (h : Stuck s) : paired none s = false := by
  cases s with
  | nil => exact h.elim
  | cons c r => rw [paired_half r h.1, decide_eq_false h.2, Bool.false_and]

/-! ## One iteration -/

section Loop

variable [RuneCase]

/-- How far an iteration moves the index, by the case it takes. -/
inductive Advance (c : UInt8) (r : Bytes) : Nat → Prop
  | one : isQuote c = false → isHalf c = false → (c = '!'.toUInt8 → r.head? ≠ some '='.toUInt8) →
      Advance c r 1
  | quoted : isQuote c = true →
      Advance c r (1 + quotedSize c r)
  | bang : c = '!'.toUInt8 → r.head? = some '='.toUInt8 → Advance c r 2
  | pair : isHalf c = true → r.head? = some c → Advance c r 2
  | word : isWordByte c = true → Advance c r ((c :: r).takeWhile isWordByte).length
  | stuck : isHalf c = true → r.head? ≠ some c → Advance c r 0

theorem nextToken_advance (c : UInt8) (r : Bytes) : Advance c r (nextToken (c :: r)).2 := by
  unfold nextToken
  simp only
  split_ifs with hs hl hr hq heq hbe hb ha ho
  · exact .one (isBlank_plain hs).1 (isBlank_plain hs).2.1 fun h => absurd h (isBlank_plain hs).2.2
  · subst hl
    exact .one (by decide) (by decide) fun h => absurd h (by decide)
  · subst hr
    exact .one (by decide) (by decide) fun h => absurd h (by decide)
  · exact .quoted hq
  · exact .pair (by rw [heq.1]; decide) heq.2
  · exact .bang hbe.1 hbe.2
  · exact .one (Bool.not_eq_true _ ▸ hq) (by rw [hb]; decide) fun h hn => hbe ⟨h, hn⟩
  · exact .pair (by rw [ha.1]; decide) ha.2
  · exact .pair (by rw [ho.1]; decide) ho.2
  · -- the bareword case, which also takes the undoubled halves
    rcases Bool.eq_false_or_eq_true (isHalf c) with hh | hh
    · have hr : r.head? ≠ some c := by
        intro hd
        simp only [isHalf, Bool.or_eq_true, beq_iff_eq] at hh
        rcases hh with (h | h) | h
        · exact heq ⟨h, hd⟩
        · exact ha ⟨h, hd⟩
        · exact ho ⟨h, hd⟩
      have hw : ((c :: r).takeWhile isWordByte).length = 0 := by
        rw [List.takeWhile_cons_of_neg (by rw [isHalf_not_word hh]; exact Bool.false_ne_true)]
        rfl
      rw [hw]
      exact .stuck hh hr
    · have hw : isWordByte c = true :=
        isWordByte_of_rest (Bool.not_eq_true _ ▸ hs) hl hr (Bool.not_eq_true _ ▸ hq) hb hh
      exact .word hw

omit [RuneCase] in
theorem quotedSize_le (q : UInt8) (r : Bytes) : quotedSize q r ≤ r.length := by
  have h : (r.takeWhile (· ≠ q)).length ≤ r.length := (List.takeWhile_sublist _).length_le
  simp only [quotedSize]
  split <;> omega

omit [RuneCase] in
theorem length_of_head {c : UInt8} {r : Bytes} (h : r.head? = some c) : 0 < r.length :=
  List.length_pos_iff.mpr fun hr => by rw [hr] at h; exact nomatch h

/-- The index never leaves the text. -/
theorem nextToken_le (rest : Bytes) : (nextToken rest).2 ≤ rest.length := by
  cases rest with
  | nil => exact Nat.le_refl 0
  | cons c r =>
    have h := nextToken_advance c r
    generalize (nextToken (c :: r)).2 = n at h
    rw [List.length_cons]
    cases h with
    | one => omega
    | quoted =>
      have := quotedSize_le c r
      omega
    | bang _ h | pair _ h =>
      have := length_of_head h
      omega
    | word => exact (List.takeWhile_sublist _).length_le
    | stuck => omega

/-- An iteration moves the index unless the text is stuck. -/
theorem nextToken_pos {rest : Bytes} (hne : rest ≠ []) (hs : ¬ Stuck rest) :
    0 < (nextToken rest).2 := by
  cases rest with
  | nil => exact absurd rfl hne
  | cons c r =>
    have h := nextToken_advance c r
    generalize (nextToken (c :: r)).2 = n at h
    cases h with
    | word hw =>
      rw [List.takeWhile_cons_of_pos hw, List.length_cons]
      omega
    | stuck hh hd => exact absurd ⟨hh, hd⟩ hs
    | _ => omega

theorem nextToken_stuck {rest : Bytes} (hs : Stuck rest) : (nextToken rest).2 = 0 := by
  cases rest with
  | nil => rfl
  | cons c r =>
    have h := nextToken_advance c r
    have hc := isHalf_plain hs.1
    generalize (nextToken (c :: r)).2 = n at h
    cases h with
    | one _ hh _ => exact absurd (hh.symm.trans hs.1) Bool.false_ne_true
    | quoted hq => exact absurd (hc.1.symm.trans hq) Bool.false_ne_true
    | bang hb _ => exact absurd hb hc.2
    | pair _ hd => exact absurd hd hs.2
    | word hw => exact absurd ((isHalf_not_word hs.1).symm.trans hw) Bool.false_ne_true
    | stuck => rfl

omit [RuneCase] in
theorem drop_takeWhile (p : UInt8 → Bool) (l : Bytes) :
    l.drop (l.takeWhile p).length = l.dropWhile p := by
  have h : (l.takeWhile p ++ l.dropWhile p).drop (l.takeWhile p).length = l.dropWhile p :=
    List.drop_left
  rwa [List.takeWhile_append_dropWhile] at h

/-- What an iteration leaves is paired when what it met was. -/
theorem nextToken_paired {rest : Bytes} (hs : ¬ Stuck rest) :
    paired none (rest.drop (nextToken rest).2) = paired none rest := by
  cases rest with
  | nil => rfl
  | cons c r =>
    have h := nextToken_advance c r
    generalize (nextToken (c :: r)).2 = n at h
    cases h with
    | one hq hh hb => exact (paired_one hq hh hb).symm
    | quoted hq =>
      rw [Nat.add_comm, List.drop_succ_cons, ← paired_quoted, paired_cons, if_pos hq]
    | bang hc hd =>
      subst hc
      exact (paired_bang hd).symm
    | pair hh hd =>
      rw [paired_half r hh, decide_eq_true hd, Bool.true_and]
      rfl
    | word =>
      have hw : paired none ((c :: r).takeWhile isWordByte ++ (c :: r).dropWhile isWordByte)
          = paired none ((c :: r).dropWhile isWordByte) :=
        paired_word (fun d hd => List.mem_takeWhile_imp hd) _
      rw [drop_takeWhile, ← hw, List.takeWhile_append_dropWhile]
    | stuck hh hd => exact absurd ⟨hh, hd⟩ hs

/-- At most one token an iteration. -/
theorem nextToken_tokens (rest : Bytes) : (nextToken rest).1.length ≤ 1 := by
  cases rest with
  | nil => exact Nat.zero_le 1
  | cons c r =>
    unfold nextToken
    simp only
    split_ifs <;> simp

/-! ## The loop -/

/-- The state after so many iterations. -/
def lexRun (s : Bytes) (k : Nat) : LexState := (lexStep s)^[k] {}

theorem lexRun_succ (s : Bytes) (k : Nat) : lexRun s (k + 1) = lexStep s (lexRun s k) :=
  Function.iterate_succ_apply' _ _ _

/-- The loop is still inside the text. -/
def LexState.Running (s : Bytes) (st : LexState) : Prop := st.i < s.length

/-- What holds between two iterations. -/
structure LexInv (s : Bytes) (st : LexState) : Prop where
  inside : st.i ≤ s.length
  tokens : st.toks.length ≤ st.i

omit [RuneCase] in
theorem drop_ne_nil {s : Bytes} {i : Nat} (h : i < s.length) : s.drop i ≠ [] :=
  fun hd => absurd (List.drop_eq_nil_iff.mp hd) (not_le.mpr h)

/-- An iteration that is not stuck keeps the invariant and moves on. -/
theorem lexStep_inv {s : Bytes} {st : LexState} (h : LexInv s st) (hr : st.Running s)
    (hs : ¬ Stuck (s.drop st.i)) : LexInv s (lexStep s st) ∧ st.i < (lexStep s st).i := by
  have hpos := nextToken_pos (drop_ne_nil hr) hs
  have hle := nextToken_le (s.drop st.i)
  have htok := nextToken_tokens (s.drop st.i)
  have hin := h.inside
  have hto := h.tokens
  rw [List.length_drop] at hle
  refine ⟨⟨?_, ?_⟩, ?_⟩ <;> simp only [lexStep, List.length_append] <;> omega

theorem lexStep_paired {s : Bytes} {st : LexState} (hs : ¬ Stuck (s.drop st.i)) :
    paired none (s.drop (lexStep s st).i) = paired none (s.drop st.i) := by
  rw [lexStep, ← List.drop_drop]
  exact nextToken_paired hs

theorem lexStep_stuck {s : Bytes} {st : LexState} (hs : Stuck (s.drop st.i)) :
    (lexStep s st).i = st.i := by
  rw [lexStep]
  simp only [nextToken_stuck hs, Nat.add_zero]

/-- On a text that is paired from here on the loop ends, a byte an iteration at the slowest. -/
theorem tokenizeLoop_returns (s : Bytes) : ∀ (fuel : Nat) (st : LexState), LexInv s st →
    paired none (s.drop st.i) = true → s.length ≤ st.i + fuel →
    ∃ toks, tokenizeLoop s fuel st = some toks ∧ toks.length ≤ s.length
  | 0, st, h, _, hf => by
    have hout : ¬ st.i < s.length := by omega
    exact ⟨st.toks, if_neg hout, h.tokens.trans h.inside⟩
  | fuel + 1, st, h, hp, hf => by
    rw [tokenizeLoop]
    split
    · next hr =>
      have hs : ¬ Stuck (s.drop st.i) := fun hs => by
        rw [paired_stuck hs] at hp
        exact Bool.false_ne_true hp
      have hstep := lexStep_inv h hr hs
      refine tokenizeLoop_returns s fuel _ hstep.1 (by rw [lexStep_paired hs, hp]) ?_
      have := hstep.2
      omega
    · exact ⟨st.toks, rfl, h.tokens.trans h.inside⟩

/-- On any other text no number of iterations ends it. -/
theorem tokenizeLoop_runs (s : Bytes) : ∀ (fuel : Nat) (st : LexState),
    paired none (s.drop st.i) = false → tokenizeLoop s fuel st = none := by
  have hrun : ∀ st : LexState, paired none (s.drop st.i) = false → st.i < s.length := by
    intro st hp
    by_contra hout
    rw [List.drop_eq_nil_iff.mpr (not_lt.mp hout)] at hp
    exact Bool.false_ne_true hp.symm
  intro fuel
  induction fuel with
  | zero => exact fun st hp => if_pos (hrun st hp)
  | succ fuel ih =>
    intro st hp
    rw [tokenizeLoop, if_pos (hrun st hp)]
    refine ih _ ?_
    by_cases hs : Stuck (s.drop st.i)
    · rw [lexStep_stuck hs, hp]
    · rw [lexStep_paired hs, hp]

/-- An iteration past the end would change nothing. -/
theorem lexStep_end {s : Bytes} {st : LexState} (h : ¬ st.Running s) : lexStep s st = st := by
  rw [lexStep, List.drop_eq_nil_iff.mpr (not_lt.mp h)]
  simp [nextToken]

/-- Every state the loop passes through on a paired text. -/
theorem lexRun_inv {s : Bytes} (hp : paired none s = true) :
    ∀ k, LexInv s (lexRun s k) ∧ paired none (s.drop (lexRun s k).i) = true
  | 0 => ⟨⟨Nat.zero_le _, Nat.le_refl 0⟩, hp⟩
  | k + 1 => by
    obtain ⟨hinv, hk⟩ := lexRun_inv hp k
    rw [lexRun_succ]
    by_cases hr : (lexRun s k).Running s
    · have hs : ¬ Stuck (s.drop (lexRun s k).i) := fun hs => by
        rw [paired_stuck hs] at hk
        exact Bool.false_ne_true hk
      exact ⟨(lexStep_inv hinv hr hs).1, by rw [lexStep_paired hs, hk]⟩
    · rw [lexStep_end hr]
      exact ⟨hinv, hk⟩

theorem lexRun_progress {s : Bytes} (hp : paired none s = true) {k : Nat}
    (hr : (lexRun s k).Running s) : (lexRun s k).i < (lexRun s (k + 1)).i := by
  obtain ⟨hinv, hk⟩ := lexRun_inv hp k
  have hs : ¬ Stuck (s.drop (lexRun s k).i) := fun hs => by
    rw [paired_stuck hs] at hk
    exact Bool.false_ne_true hk
  rw [lexRun_succ]
  exact (lexStep_inv hinv hr hs).2

/-- What the loop returns is what is there at an iteration that left the text. -/
theorem tokenizeLoop_run (s : Bytes) : ∀ (fuel : Nat) (st : LexState) {toks : List Token},
    tokenizeLoop s fuel st = some toks →
    ∃ k ≤ fuel, ¬ ((lexStep s)^[k] st).Running s ∧ ((lexStep s)^[k] st).toks = toks
  | 0, st, toks, h => by
    unfold tokenizeLoop at h
    split at h
    · exact nomatch h
    · next hout => exact ⟨0, Nat.le_refl 0, hout, Option.some.inj h⟩
  | fuel + 1, st, toks, h => by
    unfold tokenizeLoop at h
    split at h
    · obtain ⟨k, hk, hout, ht⟩ := tokenizeLoop_run s fuel _ h
      exact ⟨k + 1, Nat.succ_le_succ hk, hout, ht⟩
    · next hout => exact ⟨0, Nat.zero_le _, hout, Option.some.inj h⟩

/-- The search returns when the tokenizer does. -/
theorem searchFilter_isSome (go : Runtime) (m : Manager) {query : Bytes} (limit : Int)
    (h : (tokenizeFilter query).isSome = true) : (searchFilter go m query limit).isSome = true := by
  obtain ⟨toks, ht⟩ := Option.isSome_iff_exists.mp h
  rw [searchFilter, ht]
  simp only
  split <;> rfl

/--
The loop ends on a text: each of its iterations moves the index, at most one a byte
leaves the text with at most a token a byte, and the search behind it returns.
-/
structure FilterReturns (s : Bytes) : Prop where
  progress : ∀ k, (lexRun s k).Running s → (lexRun s k).i < (lexRun s (k + 1)).i
  returns : ∃ k ≤ s.length, ¬ (lexRun s k).Running s ∧
    tokenizeFilter s = some (lexRun s k).toks ∧ (lexRun s k).toks.length ≤ s.length
  search : ∀ (go : Runtime) (m : Manager) (limit : Int),
    (searchFilter go m s limit).isSome = true

/-- The tokenizer returns on the texts where, outside quotes, `=`, `&` and `|` stand in pairs. -/
theorem filterReturns_iff (s : Bytes) : FilterReturns s ↔ paired none s = true := by
  constructor
  · intro h
    obtain ⟨k, -, -, htoks, -⟩ := h.returns
    by_contra hp
    rw [tokenizeFilter, tokenizeLoop_runs s s.length {} (Bool.not_eq_true _ ▸ hp)] at htoks
    exact nomatch htoks
  · intro hp
    obtain ⟨toks, htoks, hlen⟩ :=
      tokenizeLoop_returns s s.length {} ⟨Nat.zero_le _, Nat.le_refl 0⟩ hp (Nat.le_add_left _ _)
    obtain ⟨k, hk, hout, hsame⟩ := tokenizeLoop_run s s.length {} htoks
    refine ⟨fun k => lexRun_progress hp, ⟨k, hk, hout, ?_, ?_⟩, fun go m limit => ?_⟩
    · exact htoks.trans (congrArg some hsame.symm)
    · exact (congrArg List.length hsame).trans_le hlen
    · exact searchFilter_isSome go m limit (Option.isSome_iff_exists.mpr ⟨toks, htoks⟩)

end Loop

/-- A single `=` keeps the loop where it is. -/
theorem filterReturns_equals : ¬ FilterReturns (ascii "port=443") := by
  intro h
  obtain ⟨k, -, -, htoks, -⟩ := h.returns
  have hp : paired none (ascii "port=443") = false := by decide +kernel
  rw [tokenizeFilter, tokenizeLoop_runs (ascii "port=443") _ {} hp] at htoks
  exact nomatch htoks

example : tokenizeFilter (ascii "t&&b") =
    some [⟨tokWord, ascii "t"⟩, ⟨tokAnd, ascii "&&"⟩, ⟨tokWord, ascii "b"⟩] := by rfl

end Etherchimp
