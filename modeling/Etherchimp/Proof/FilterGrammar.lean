import Etherchimp.Proof.FilterTokens

/-!
# Printing a filter and reading it back

A filter is a tree of connectives over protocol keywords and comparisons. It is printed
with the parentheses the precedences `not`, `and`, `or` leave necessary, in any spelling
of the connectives, and its tokens are laid out with any white space that keeps them
apart. Tokenizing the text gives back the tokens, and parsing these gives back what the
tree means.
-/

namespace Etherchimp

open Wire (Bytes)
open TokKind

section Grammar

variable [RuneCase]

/-! ## Filters and what they mean -/

def isField (w : Bytes) : Bool :=
  isFieldOf ipFields w || isFieldOf macFields w || isFieldOf hostFields w || isFieldOf portFields w
    || isFieldOf payloadFields w

/-- A field the filter language knows, in any letter case. -/
structure FieldName where
  text : Bytes
  word : ∀ c ∈ text, isWordByte c = true
  known : isField text = true

/-- A protocol keyword, in any letter case. -/
structure Keyword where
  text : Bytes
  word : ∀ c ∈ text, isWordByte c = true
  known : isKnownProtocol (lowerText text) = true

inductive Comparison
  | eqSign
  | neSign
  | eqWord
  | neWord
  | contains

def Comparison.text : Comparison → Bytes
  | eqSign => ascii "=="
  | neSign => ascii "!="
  | eqWord => ascii "eq"
  | neWord => ascii "ne"
  | contains => ascii "contains"

inductive FilterExpr
  | keyword (k : Keyword)
  | compare (field : FieldName) (op : Comparison) (value : Bytes)
  | not (a : FilterExpr)
  | and (a b : FilterExpr)
  | or (a b : FilterExpr)

/-- The predicate of a comparison; every known field has one. -/
def comparePredicate (field op value : Bytes) : Predicate :=
  match buildComparison field op value with
  | .ok pred => pred
  | .error _ => fun _ => false

def FilterExpr.denote : FilterExpr → Predicate
  | keyword k => fun c => (c.protos.lookup (lowerText k.text)).getD false
  | compare field op value => comparePredicate field.text op.text value
  | not a => fun c => !a.denote c
  | and a b => fun c => a.denote c && b.denote c
  | or a b => fun c => a.denote c || b.denote c

/-! ## Printing -/

/-- How tightly a place in a filter binds. -/
inductive Prec
  | or
  | and
  | not

def Prec.rank : Prec → Nat
  | or => 0
  | and => 1
  | not => 2

def FilterExpr.prec : FilterExpr → Prec
  | or _ _ => .or
  | and _ _ => .and
  | _ => .not

/-- The tokens of a filter at a place, with parentheses where it binds less than the place. -/
inductive Prints : Prec → FilterExpr → List Token → Prop
  | keyword {p : Prec} {k : Keyword} : Prints p (.keyword k) [⟨tokWord, k.text⟩]
  | compare {p : Prec} {field : FieldName} {op : Comparison} {value : Bytes} :
      Prints p (.compare field op value)
        [⟨tokWord, field.text⟩, ⟨tokOp, op.text⟩, ⟨tokString, value⟩]
  | not {p : Prec} {a : FilterExpr} {ts : List Token} {spelling : Bytes} :
      spelling = ascii "not" ∨ spelling = ascii "!" → Prints .not a ts →
      Prints p (.not a) (⟨tokNot, spelling⟩ :: ts)
  | and {p : Prec} {a b : FilterExpr} {ta tb : List Token} {spelling : Bytes} :
      p.rank ≤ Prec.and.rank → Prints .and a ta →
      spelling = ascii "and" ∨ spelling = ascii "&&" → Prints .not b tb →
      Prints p (.and a b) (ta ++ ⟨tokAnd, spelling⟩ :: tb)
  | or {p : Prec} {a b : FilterExpr} {ta tb : List Token} {spelling : Bytes} :
      p.rank ≤ Prec.or.rank → Prints .or a ta →
      spelling = ascii "or" ∨ spelling = ascii "||" → Prints .and b tb →
      Prints p (.or a b) (ta ++ ⟨tokOr, spelling⟩ :: tb)
  | paren {p : Prec} {a : FilterExpr} {ts : List Token} :
      a.prec.rank < p.rank → Prints .or a ts →
      Prints p a (⟨tokLParen, ascii "("⟩ :: ts ++ [⟨tokRParen, ascii ")"⟩])

/-- The tokens written with delimiters. -/
def signs : List Token :=
  [⟨tokLParen, ascii "("⟩, ⟨tokRParen, ascii ")"⟩, ⟨tokOp, ascii "=="⟩, ⟨tokOp, ascii "!="⟩,
    ⟨tokNot, ascii "!"⟩, ⟨tokAnd, ascii "&&"⟩, ⟨tokOr, ascii "||"⟩]

/-- A token and a text it is written as. -/
inductive Written : Token → Bytes → Prop
  | sign {t : Token} : t ∈ signs → Written t t.val
  | quoted {q : UInt8} {value : Bytes} : isQuote q = true → q ∉ value →
      Written ⟨tokString, value⟩ (q :: (value ++ [q]))
  | bare {w : Bytes} : w ≠ [] → (∀ c ∈ w, isWordByte c = true) → Written (wordToken w) w

/-- Two bytes that may end and begin neighbouring tokens with nothing between them. -/
def mayTouch (c d : UInt8) : Bool :=
  !(isWordByte c && isWordByte d) && !(c == '!'.toUInt8 && d == '='.toUInt8)

/-- Tokens written one after another, with white space anywhere between and around them. -/
inductive Layout : List Token → Bytes → Prop
  | done {ws : Bytes} : (∀ c ∈ ws, isBlank c = true) → Layout [] ws
  | token {ws x s : Bytes} {t : Token} {ts : List Token} : (∀ c ∈ ws, isBlank c = true) →
      Written t x → (∀ c ∈ x.getLast?, ∀ d ∈ s.head?, mayTouch c d = true) → Layout ts s →
      Layout (t :: ts) (ws ++ (x ++ s))

/-! ## The tokenizer gives back the tokens -/

omit [RuneCase] in
theorem takeWhile_stop {p : UInt8 → Bool} : ∀ {w r : Bytes}, (∀ c ∈ w, p c = true) →
    (∀ d ∈ r.head?, p d = false) → (w ++ r).takeWhile p = w
  | [], [], _, _ => rfl
  | [], d :: _, _, hr => List.takeWhile_cons_of_neg (by rw [hr d rfl]; exact Bool.false_ne_true)
  | c :: w, r, hw, hr => by
    rw [List.cons_append, List.takeWhile_cons_of_pos (hw c List.mem_cons_self),
      takeWhile_stop (fun d hd => hw d (List.mem_cons_of_mem _ hd)) hr]

theorem nextToken_blank {c : UInt8} (r : Bytes) (h : isBlank c = true) :
    nextToken (c :: r) = ([], 1) := by
  rw [nextToken]
  exact if_pos h

theorem nextToken_quoted {q : UInt8} {value : Bytes} (hq : isQuote q = true) (hv : q ∉ value)
    (r : Bytes) :
    nextToken (q :: (value ++ [q]) ++ r) = ([⟨tokString, value⟩], (q :: (value ++ [q])).length) := by
  have hp := isQuote_plain hq
  have htake : (value ++ q :: r).takeWhile (· ≠ q) = value :=
    takeWhile_stop (fun c hc => decide_eq_true fun h => hv (h ▸ hc))
      (fun d hd => decide_eq_false (not_not.mpr (Option.some.inj hd).symm))
  have hsize : quotedSize q (value ++ q :: r) = value.length + 1 := by
    rw [quotedSize, htake]
    exact if_pos (by simp)
  rw [List.cons_append, List.append_assoc, List.singleton_append, nextToken]
  simp only [hp.1, hp.2.1, hp.2.2, hq, htake, hsize, Bool.false_eq_true, if_false, if_true]
  simp [Nat.add_comm]

theorem nextToken_bare {w : Bytes} (hne : w ≠ []) (hw : ∀ c ∈ w, isWordByte c = true) {r : Bytes}
    (hr : ∀ d ∈ r.head?, isWordByte d = false) : nextToken (w ++ r) = ([wordToken w], w.length) := by
  obtain ⟨c, w', rfl⟩ := List.exists_cons_of_ne_nil hne
  have hc := isWordByte_plain (hw c List.mem_cons_self)
  have htake := takeWhile_stop hw hr
  have hh := hc.2.2.1
  simp only [isHalf, Bool.or_eq_false_iff, beq_eq_false_iff_ne] at hh
  rw [List.cons_append] at htake ⊢
  rw [nextToken]
  simp only [hc.1, hc.2.1, hc.2.2.2.1, hc.2.2.2.2.1, hc.2.2.2.2.2, hh.1.1, hh.1.2, hh.2, htake,
    Bool.false_eq_true, if_false, false_and]

theorem nextToken_sign {t : Token} (ht : t ∈ signs) {r : Bytes}
    (hr : ∀ c ∈ t.val.getLast?, ∀ d ∈ r.head?, mayTouch c d = true) :
    nextToken (t.val ++ r) = ([t], t.val.length) := by
  simp only [signs, List.mem_cons, List.not_mem_nil, or_false] at ht
  rcases ht with rfl | rfl | rfl | rfl | rfl | rfl | rfl
  case inr.inr.inr.inr.inl =>
    -- a `!` with a `=` behind it would be the other operator
    have heq : r.head? ≠ some '='.toUInt8 := fun h => absurd (hr _ rfl _ h) (by decide)
    show nextToken ('!'.toUInt8 :: r) = _
    rw [nextToken]
    simp only [heq, and_false, if_false]
    rfl
  all_goals rfl

/-! ## Reading a layout -/

/-- The loop goes on from a state to return some more tokens. -/
def Reads (s : Bytes) (st : LexState) (ts : List Token) : Prop :=
  ∀ fuel, s.length ≤ st.i + fuel → tokenizeLoop s fuel st = some (st.toks ++ ts)

theorem reads_end {s : Bytes} {st : LexState} (h : s.drop st.i = []) : Reads s st [] := by
  have hout : ¬ st.i < s.length := not_lt.mpr (List.drop_eq_nil_iff.mp h)
  intro fuel _
  cases fuel <;> rw [tokenizeLoop, if_neg hout, List.append_nil]

/-- One iteration: it reads some of the unread text, and the loop goes on behind it. -/
theorem reads_step {s : Bytes} {st : LexState} {x rest : Bytes} {new ts : List Token}
    (hrest : s.drop st.i = x ++ rest) (hx : x ≠ []) (hnext : nextToken (x ++ rest) = (new, x.length))
    (h : ∀ st' : LexState, s.drop st'.i = rest → Reads s st' ts) : Reads s st (new ++ ts) := by
  have hlen : 0 < x.length := List.length_pos_iff.mpr hx
  have hr : st.i < s.length := by
    by_contra hout
    rw [List.drop_eq_nil_iff.mpr (not_lt.mp hout)] at hrest
    exact hx (List.append_eq_nil_iff.mp hrest.symm).1
  intro fuel hf
  cases fuel with
  | zero => omega
  | succ fuel =>
    have hstep : lexStep s st = ⟨st.toks ++ new, st.i + x.length⟩ := by
      rw [lexStep, hrest, hnext]
    have hdrop : s.drop (st.i + x.length) = rest := by
      rw [← List.drop_drop, hrest, List.drop_left]
    rw [tokenizeLoop, if_pos hr, hstep, h ⟨_, _⟩ hdrop fuel (by simp only; omega), List.append_assoc]

theorem reads_blanks {s : Bytes} {rest : Bytes} {ts : List Token} :
    ∀ {ws : Bytes}, (∀ c ∈ ws, isBlank c = true) →
      (∀ st' : LexState, s.drop st'.i = rest → Reads s st' ts) →
      ∀ st : LexState, s.drop st.i = ws ++ rest → Reads s st ts
  | [], _, h, st, hst => h st hst
  | c :: ws, hws, h, st, hst => by
    have hc : nextToken ([c] ++ (ws ++ rest)) = ([], [c].length) :=
      nextToken_blank _ (hws c List.mem_cons_self)
    have hst : s.drop st.i = [c] ++ (ws ++ rest) := hst
    exact reads_step hst (List.cons_ne_nil _ _) hc
      (reads_blanks (fun d hd => hws d (List.mem_cons_of_mem _ hd)) h)

theorem written_ne_nil {t : Token} {x : Bytes} (h : Written t x) : x ≠ [] := by
  cases h with
  | sign ht =>
    simp only [signs, List.mem_cons, List.not_mem_nil, or_false] at ht
    rcases ht with rfl | rfl | rfl | rfl | rfl | rfl | rfl <;> decide
  | quoted => exact List.cons_ne_nil _ _
  | bare hne => exact hne

/-- A token that its text keeps apart from what follows is the one that is read. -/
theorem nextToken_written {t : Token} {x r : Bytes} (h : Written t x)
    (hr : ∀ c ∈ x.getLast?, ∀ d ∈ r.head?, mayTouch c d = true) :
    nextToken (x ++ r) = ([t], x.length) := by
  cases h with
  | sign ht => exact nextToken_sign ht hr
  | quoted hq hv => exact nextToken_quoted hq hv r
  | bare hne hw =>
    refine nextToken_bare hne hw fun d hd => ?_
    have hlast := hr _ (List.getLast?_eq_some_getLast hne) d hd
    rw [mayTouch, hw _ (List.getLast_mem hne), Bool.true_and, Bool.and_eq_true, Bool.not_eq_true'] at hlast
    exact hlast.1

theorem layout_reads {s rest : Bytes} {ts : List Token} (h : Layout ts rest) :
    ∀ st : LexState, s.drop st.i = rest → Reads s st ts := by
  induction h with
  | done hws =>
    intro st hst
    exact reads_blanks hws (fun st' h' => reads_end h') st (by rw [hst, List.append_nil])
  | token hws hwritten hr _ ih =>
    refine reads_blanks hws fun st' hst' => ?_
    exact reads_step hst' (written_ne_nil hwritten) (nextToken_written hwritten hr) ih

/-- Laying tokens out as text loses none of them. -/
theorem tokenize_layout {ts : List Token} {s : Bytes} (h : Layout ts s) :
    tokenizeFilter s = some ts :=
  layout_reads h {} rfl s.length (Nat.le_add_left _ _)

/-! ## The parser gives back the meaning -/

/-- A parse gave a predicate and left the parser at some tokens. -/
def Yields {P : FilterParser → Prop} (r : Except String (Predicate × { q : FilterParser // P q }))
    (pred : Predicate) (q : FilterParser) : Prop :=
  ∃ h, r = .ok (pred, ⟨q, h⟩)

/-- The kind of the first token. -/
def headKind (ts : List Token) : Option TokKind := ts.head?.map Token.kind

omit [RuneCase] in
theorem ne_of_headKind {ts rest : List Token} {k : TokKind} {v : Bytes}
    (h : headKind ts ≠ some k) : ts ≠ ⟨k, v⟩ :: rest :=
  fun e => h (by rw [e]; rfl)

theorem orTail_stop {left : Predicate} {ts : List Token} {saw : Bool} (h : headKind ts ≠ some tokOr) :
    Yields (orTail left ⟨ts, saw⟩) left ⟨ts, saw⟩ :=
  ⟨le_refl _, orTail.eq_2 _ _ fun _ _ _ e => ne_of_headKind h (congrArg FilterParser.toks e)⟩

theorem orTail_or {left right pred : Predicate} {v : Bytes} {rest : List Token} {saw : Bool}
    {q r : FilterParser} (hr : Yields (parseAnd ⟨rest, true⟩) right q)
    (ht : Yields (orTail (fun c => left c || right c) q) pred r) :
    Yields (orTail left ⟨⟨tokOr, v⟩ :: rest, saw⟩) pred r := by
  obtain ⟨hq, er⟩ := hr
  obtain ⟨hr, et⟩ := ht
  refine ⟨(hr.trans_lt hq).le.trans (Nat.le_succ _), ?_⟩
  rw [orTail.eq_1, er]
  simp only [et]

theorem parseOr_yields {left pred : Predicate} {p q r : FilterParser}
    (hl : Yields (parseAnd p) left q) (ht : Yields (orTail left q) pred r) :
    Yields (parseOr p) pred r := by
  obtain ⟨hq, el⟩ := hl
  obtain ⟨hr, et⟩ := ht
  refine ⟨hr.trans_lt hq, ?_⟩
  rw [parseOr, el]
  simp only [et]

theorem andTail_stop {left : Predicate} {ts : List Token} {saw : Bool}
    (h : headKind ts ≠ some tokAnd) : Yields (andTail left ⟨ts, saw⟩) left ⟨ts, saw⟩ :=
  ⟨le_refl _, andTail.eq_2 _ _ fun _ _ _ e => ne_of_headKind h (congrArg FilterParser.toks e)⟩

theorem andTail_and {left right pred : Predicate} {v : Bytes} {rest : List Token} {saw : Bool}
    {q r : FilterParser} (hr : Yields (parseNot ⟨rest, true⟩) right q)
    (ht : Yields (andTail (fun c => left c && right c) q) pred r) :
    Yields (andTail left ⟨⟨tokAnd, v⟩ :: rest, saw⟩) pred r := by
  obtain ⟨hq, er⟩ := hr
  obtain ⟨hr, et⟩ := ht
  refine ⟨(hr.trans_lt hq).le.trans (Nat.le_succ _), ?_⟩
  rw [andTail.eq_1, er]
  simp only [et]

theorem parseAnd_yields {left pred : Predicate} {p q r : FilterParser}
    (hl : Yields (parseNot p) left q) (ht : Yields (andTail left q) pred r) :
    Yields (parseAnd p) pred r := by
  obtain ⟨hq, el⟩ := hl
  obtain ⟨hr, et⟩ := ht
  refine ⟨hr.trans_lt hq, ?_⟩
  rw [parseAnd, el]
  simp only [et]

theorem parseNot_not {inner : Predicate} {v : Bytes} {rest : List Token} {saw : Bool}
    {q : FilterParser} (h : Yields (parseNot ⟨rest, true⟩) inner q) :
    Yields (parseNot ⟨⟨tokNot, v⟩ :: rest, saw⟩) (fun c => !inner c) q := by
  obtain ⟨hq, e⟩ := h
  refine ⟨hq.trans (Nat.lt_succ_self _), ?_⟩
  rw [parseNot.eq_1, e]

theorem parseNot_primary {ts : List Token} {saw : Bool} {pred : Predicate} {q : FilterParser}
    (hk : headKind ts ≠ some tokNot) (h : Yields (parsePrimary ⟨ts, saw⟩) pred q) :
    Yields (parseNot ⟨ts, saw⟩) pred q := by
  rw [parseNot.eq_2 _ fun _ _ _ e => ne_of_headKind hk (congrArg FilterParser.toks e)]
  exact h

theorem parsePrimary_paren {inner : Predicate} {v v' : Bytes} {rest rest' : List Token}
    {saw saw' : Bool} (h : Yields (parseOr ⟨rest, true⟩) inner ⟨⟨tokRParen, v'⟩ :: rest', saw'⟩) :
    Yields (parsePrimary ⟨⟨tokLParen, v⟩ :: rest, saw⟩) inner ⟨rest', saw'⟩ := by
  obtain ⟨hq, e⟩ := h
  refine ⟨(Nat.lt_of_succ_lt hq).trans (Nat.lt_succ_self _), ?_⟩
  rw [parsePrimary.eq_1, e]

theorem parsePrimary_compare {field op value : Bytes} {kind : TokKind} {pred : Predicate}
    (hk : kind = tokWord ∨ kind = tokString) (hb : buildComparison field op value = .ok pred)
    (rest : List Token) (saw : Bool) :
    Yields (parsePrimary ⟨⟨tokWord, field⟩ :: ⟨tokOp, op⟩ :: ⟨kind, value⟩ :: rest, saw⟩) pred
      ⟨rest, true⟩ := by
  refine ⟨Nat.lt_add_of_pos_right (by decide : 0 < 3), ?_⟩
  rw [parsePrimary.eq_2, if_pos hk, hb]

theorem parsePrimary_keyword {w : Bytes} (hw : isKnownProtocol (lowerText w) = true)
    {rest : List Token} (hk : headKind rest ≠ some tokOp) (saw : Bool) :
    Yields (parsePrimary ⟨⟨tokWord, w⟩ :: rest, saw⟩)
      (fun c => (c.protos.lookup (lowerText w)).getD false) ⟨rest, true⟩ := by
  refine ⟨Nat.lt_succ_self _, ?_⟩
  rw [parsePrimary.eq_4 _ _ _ (fun _ _ _ _ => ne_of_headKind hk) fun _ => ne_of_headKind hk,
    if_pos hw]

/-- Every known field has a comparison. -/
theorem buildComparison_known {field : Bytes} (h : isField field = true) (op value : Bytes) :
    buildComparison field op value = .ok (comparePredicate field op value) := by
  have hok : ∃ pred, buildComparison field op value = .ok pred := by
    simp only [isField, Bool.or_eq_true] at h
    unfold buildComparison
    split_ifs with hi hm hh hp hd
    · exact ⟨_, rfl⟩
    · exact ⟨_, rfl⟩
    · exact ⟨_, rfl⟩
    · exact ⟨_, rfl⟩
    · exact ⟨_, rfl⟩
    · tauto
  obtain ⟨pred, hb⟩ := hok
  rw [comparePredicate, hb]

/--
The parser at a level reads the tokens of a filter as what it means. At the levels with
a loop it reads them as the loop's first operand, and the loop goes on behind them.
-/
def ParsesAt (f : FilterExpr) (ts : List Token) : Prec → Prop
  | .not => ∀ (rest : List Token) (saw : Bool), headKind rest ≠ some tokOp →
      Yields (parseNot ⟨ts ++ rest, saw⟩) f.denote ⟨rest, true⟩
  | .and => ∀ (rest : List Token) (saw : Bool), headKind rest ≠ some tokOp →
      ∀ (pred : Predicate) (q : FilterParser), Yields (andTail f.denote ⟨rest, true⟩) pred q →
        Yields (parseAnd ⟨ts ++ rest, saw⟩) pred q
  | .or => ∀ (rest : List Token) (saw : Bool), headKind rest ≠ some tokOp →
      headKind rest ≠ some tokAnd →
      ∀ (pred : Predicate) (q : FilterParser), Yields (orTail f.denote ⟨rest, true⟩) pred q →
        Yields (parseOr ⟨ts ++ rest, saw⟩) pred q

theorem ParsesAt.toAnd {f : FilterExpr} {ts : List Token} (h : ParsesAt f ts .not) :
    ParsesAt f ts .and :=
  fun rest saw hop _ _ ht => parseAnd_yields (h rest saw hop) ht

theorem ParsesAt.toOr {f : FilterExpr} {ts : List Token} (h : ParsesAt f ts .and) :
    ParsesAt f ts .or :=
  fun rest saw hop hand _ _ ht =>
    parseOr_yields (h rest saw hop _ _ (andTail_stop hand)) ht

/-- What a level reads, every looser level reads. -/
theorem ParsesAt.loosen {f : FilterExpr} {ts : List Token} {p p' : Prec} (hp : p.rank ≤ p'.rank)
    (h : ParsesAt f ts p') : ParsesAt f ts p := by
  cases p' with
  | not =>
    cases p with
    | not => exact h
    | and => exact h.toAnd
    | or => exact h.toAnd.toOr
  | and =>
    cases p with
    | not => exact absurd hp (by decide)
    | and => exact h
    | or => exact h.toOr
  | or =>
    cases p with
    | not => exact absurd hp (by decide)
    | and => exact absurd hp (by decide)
    | or => exact h

omit [RuneCase] in
theorem Prec.rank_le_not (p : Prec) : p.rank ≤ Prec.not.rank := by
  cases p <;> decide

/-- The tokens of a filter are read as what it means, at the place they are printed for. -/
theorem prints_parses {p : Prec} {f : FilterExpr} {ts : List Token} (h : Prints p f ts) :
    ParsesAt f ts p := by
  induction h with
  | @keyword p k =>
    have hn : ParsesAt (.keyword k) [⟨tokWord, k.text⟩] .not := fun rest saw hop =>
      parseNot_primary (by exact nofun) (parsePrimary_keyword k.known hop saw)
    exact hn.loosen p.rank_le_not
  | @compare p field op value =>
    have hn : ParsesAt (.compare field op value)
        [⟨tokWord, field.text⟩, ⟨tokOp, op.text⟩, ⟨tokString, value⟩] .not := fun rest saw _ =>
      parseNot_primary (by exact nofun)
        (parsePrimary_compare (.inr rfl) (buildComparison_known field.known _ _) rest saw)
    exact hn.loosen p.rank_le_not
  | @not p a ts spelling _ _ ih =>
    have hn : ParsesAt (.not a) (⟨tokNot, spelling⟩ :: ts) .not := fun rest saw hop =>
      parseNot_not (ih rest true hop)
    exact hn.loosen p.rank_le_not
  | @and p a b ta tb spelling hp _ _ _ iha ihb =>
    have ha : ParsesAt (.and a b) (ta ++ ⟨tokAnd, spelling⟩ :: tb) .and := by
      intro rest saw hop pred q ht
      rw [List.append_assoc]
      -- the loop behind the first operand reads the second, then what follows both
      exact iha _ saw (by exact nofun) _ _ (andTail_and (ihb rest true hop) ht)
    exact ha.loosen hp
  | @or p a b ta tb spelling hp _ _ _ iha ihb =>
    have ho : ParsesAt (.or a b) (ta ++ ⟨tokOr, spelling⟩ :: tb) .or := by
      intro rest saw hop hand pred q ht
      rw [List.append_assoc]
      exact iha _ saw (by exact nofun) (by exact nofun) _ _
        (orTail_or (ihb rest true hop _ _ (andTail_stop hand)) ht)
    exact ho.loosen hp
  | @paren p a ts _ _ ih =>
    have hn : ParsesAt a (⟨tokLParen, ascii "("⟩ :: ts ++ [⟨tokRParen, ascii ")"⟩]) .not := by
      intro rest saw _
      rw [List.append_assoc]
      exact parseNot_primary (by exact nofun) (parsePrimary_paren
        (ih _ true (by exact nofun) (by exact nofun) _ _ (orTail_stop (by exact nofun))))
    exact hn.loosen p.rank_le_not

/-! ## Every filter can be printed -/

/-- Each value leaves out a quote to be quoted with. -/
def FilterExpr.Quotable : FilterExpr → Prop
  | keyword _ => True
  | compare _ _ value => ∃ q, isQuote q = true ∧ q ∉ value
  | not a => a.Quotable
  | and a b => a.Quotable ∧ b.Quotable
  | or a b => a.Quotable ∧ b.Quotable

/-- The lowercase words that are no token of a word. -/
def reservedWords : List String := ["and", "or", "not", "contains", "eq", "ne"]

theorem wordToken_word {w : Bytes} (h : ∀ r ∈ reservedWords, lowerText w ≠ ascii r) :
    wordToken w = ⟨tokWord, w⟩ := by
  simp only [reservedWords, List.forall_mem_cons, List.not_mem_nil, false_imp_iff, implies_true,
    and_true] at h
  obtain ⟨hand, hor, hnot, hcon, heq, hne⟩ := h
  simp only [wordToken, hand, hor, hnot, hcon, heq, hne, if_false, or_false]

theorem written_keyword (k : Keyword) : Written ⟨tokWord, k.text⟩ k.text := by
  have hres : ∀ r ∈ reservedWords, lowerText k.text ≠ ascii r := by
    intro r hr e
    have hk := k.known
    rw [e] at hk
    exact absurd hk ((by decide : ∀ r ∈ reservedWords, ¬ isKnownProtocol (ascii r) = true) r hr)
  have hne : k.text ≠ [] := by
    intro e
    have hk : isKnownProtocol (lowerText []) = true := e ▸ k.known
    have hnil : isKnownProtocol [] = false := by decide
    exact Bool.false_ne_true (hnil.symm.trans hk)
  have hw := Written.bare hne k.word
  rwa [wordToken_word hres] at hw

theorem written_field (f : FieldName) : Written ⟨tokWord, f.text⟩ f.text := by
  have hmem : ∃ r ∈ ipFields ++ macFields ++ hostFields ++ portFields ++ payloadFields,
      ascii r = lowerText f.text := by
    have hf := f.known
    simp only [isField, isFieldOf, Bool.or_eq_true, List.any_eq_true, beq_iff_eq] at hf
    simp only [List.mem_append]
    rcases hf with (((⟨r, hr, e⟩ | ⟨r, hr, e⟩) | ⟨r, hr, e⟩) | ⟨r, hr, e⟩) | ⟨r, hr, e⟩ <;>
      exact ⟨r, by tauto, e⟩
  obtain ⟨r, hr, e⟩ := hmem
  have hres : ∀ w ∈ reservedWords, lowerText f.text ≠ ascii w := by
    rw [← e]
    exact (by decide : ∀ r ∈ ipFields ++ macFields ++ hostFields ++ portFields ++ payloadFields,
      ∀ w ∈ reservedWords, ascii r ≠ ascii w) r hr
  have hne : f.text ≠ [] := by
    intro h
    rw [h] at e
    exact absurd e ((by decide : ∀ r ∈ ipFields ++ macFields ++ hostFields ++ portFields ++ payloadFields,
      ascii r ≠ []) r hr)
  have hw := Written.bare hne f.word
  rwa [wordToken_word hres] at hw

theorem written_opWord {w : Bytes} (hne : w ≠ []) (hw : ∀ c ∈ w, isWordByte c = true)
    (h : wordToken w = ⟨tokOp, w⟩) : Written ⟨tokOp, w⟩ w := by
  rw [← h]
  exact .bare hne hw

theorem written_op (op : Comparison) : Written ⟨tokOp, op.text⟩ op.text := by
  cases op with
  | eqSign => exact .sign (t := ⟨tokOp, ascii "=="⟩) (by decide)
  | neSign => exact .sign (t := ⟨tokOp, ascii "!="⟩) (by decide)
  | eqWord => exact written_opWord (w := ascii "eq") (by decide) (by decide +kernel) rfl
  | neWord => exact written_opWord (w := ascii "ne") (by decide) (by decide +kernel) rfl
  | contains => exact written_opWord (w := ascii "contains") (by decide) (by decide +kernel) rfl

/-- A printing, each token of which can be written when each value can. -/
def Printable (p : Prec) (f : FilterExpr) : Prop :=
  ∃ ts, Prints p f ts ∧ (f.Quotable → ∀ t ∈ ts, ∃ x, Written t x)

/-- Parentheses make a filter printable at every place. -/
theorem printable_everywhere {f : FilterExpr} (h : ∀ p : Prec, p.rank ≤ f.prec.rank → Printable p f)
    (p : Prec) : Printable p f := by
  by_cases hp : p.rank ≤ f.prec.rank
  · exact h p hp
  · obtain ⟨ts, hts, hw⟩ := h .or (Nat.zero_le _)
    refine ⟨_, .paren (not_le.mp hp) hts, fun hq t ht => ?_⟩
    simp only [List.cons_append, List.mem_cons, List.mem_append, List.not_mem_nil, or_false] at ht
    rcases ht with rfl | ht | rfl
    · exact ⟨_, .sign (by decide)⟩
    · exact hw hq t ht
    · exact ⟨_, .sign (by decide)⟩

theorem exists_prints : ∀ (f : FilterExpr) (p : Prec), Printable p f
  | .keyword k, p => by
    refine ⟨_, .keyword, fun _ t ht => ?_⟩
    rw [List.mem_singleton] at ht
    exact ⟨_, ht ▸ written_keyword k⟩
  | .compare field op value, p => by
    refine ⟨_, .compare, fun hq t ht => ?_⟩
    obtain ⟨q, hquote, hv⟩ := hq
    simp only [List.mem_cons, List.not_mem_nil, or_false] at ht
    rcases ht with rfl | rfl | rfl
    · exact ⟨_, written_field field⟩
    · exact ⟨_, written_op op⟩
    · exact ⟨_, .quoted hquote hv⟩
  | .not a, p => by
    obtain ⟨ts, hts, hw⟩ := exists_prints a .not
    refine ⟨_, .not (.inr rfl) hts, fun hq t ht => ?_⟩
    rcases List.mem_cons.mp ht with rfl | ht
    · exact ⟨_, .sign (by decide)⟩
    · exact hw hq t ht
  | .and a b, p => by
    refine printable_everywhere (fun p hp => ?_) p
    obtain ⟨ta, hta, hwa⟩ := exists_prints a .and
    obtain ⟨tb, htb, hwb⟩ := exists_prints b .not
    refine ⟨_, .and hp hta (.inr rfl) htb, fun hq t ht => ?_⟩
    rcases List.mem_append.mp ht with ht | ht
    · exact hwa hq.1 t ht
    · rcases List.mem_cons.mp ht with rfl | ht
      · exact ⟨_, .sign (by decide)⟩
      · exact hwb hq.2 t ht
  | .or a b, p => by
    refine printable_everywhere (fun p hp => ?_) p
    obtain ⟨ta, hta, hwa⟩ := exists_prints a .or
    obtain ⟨tb, htb, hwb⟩ := exists_prints b .and
    refine ⟨_, .or hp hta (.inr rfl) htb, fun hq t ht => ?_⟩
    rcases List.mem_append.mp ht with ht | ht
    · exact hwa hq.1 t ht
    · rcases List.mem_cons.mp ht with rfl | ht
      · exact ⟨_, .sign (by decide)⟩
      · exact hwb hq.2 t ht

/-- Blanks keep any tokens apart. -/
theorem exists_layout : ∀ {ts : List Token}, (∀ t ∈ ts, ∃ x, Written t x) →
    ∃ s, Layout ts s ∧ ∀ d ∈ s.head?, d = ' '.toUInt8
  | [], _ => ⟨[], .done nofun, nofun⟩
  | t :: ts, h => by
    obtain ⟨s, hs, hhead⟩ := exists_layout fun t' ht' => h t' (List.mem_cons_of_mem _ ht')
    obtain ⟨x, hx⟩ := h t List.mem_cons_self
    have hblank : ∀ c, mayTouch c ' '.toUInt8 = true := by
      intro c
      have hword : isWordByte ' '.toUInt8 = false := rfl
      have heq : (' '.toUInt8 == '='.toUInt8) = false := rfl
      rw [mayTouch, hword, heq, Bool.and_false, Bool.and_false]
      rfl
    refine ⟨[' '.toUInt8] ++ (x ++ s), .token (List.forall_mem_singleton.mpr rfl) hx (fun c _ d hd => ?_) hs,
      fun d hd => (Option.some.inj hd).symm⟩
    rw [hhead d hd]
    exact hblank c

/--
A filter printed in any spelling and laid out in any way is tokenized and parsed as a
whole, counts as a filter, and means what it says.
-/
theorem parse_printed {f : FilterExpr} {ts : List Token} {s : Bytes} (hp : Prints .or f ts)
    (hl : Layout ts s) :
    tokenizeFilter s = some ts ∧
      Yields (parseOr { toks := ts }) f.denote { toks := [], sawStructured := true } := by
  refine ⟨tokenize_layout hl, ?_⟩
  have h := prints_parses hp [] false (by exact nofun) (by exact nofun) _ _
    (orTail_stop (by exact nofun))
  rwa [List.append_nil] at h

end Grammar

def notTcpOrIP : FilterExpr :=
  .not (.or (.keyword ⟨ascii "tcp", by decide +kernel, by decide +kernel⟩)
    (.compare ⟨ascii "IP", by decide +kernel, by decide +kernel⟩ .contains (ascii "10.0")))

theorem parse_printed_not_or : ∃ ts s, tokenizeFilter s = some ts ∧
    Yields (parseOr { toks := ts }) notTcpOrIP.denote { toks := [], sawStructured := true } := by
  obtain ⟨ts, hp, hw⟩ := exists_prints notTcpOrIP .or
  obtain ⟨s, hl, -⟩ := exists_layout (hw ⟨trivial, '"'.toUInt8, by decide, by decide⟩)
  exact ⟨ts, s, parse_printed hp hl⟩

end Etherchimp
