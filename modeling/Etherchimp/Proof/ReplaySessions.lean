import Etherchimp.Server.ReplayCache
import Etherchimp.Lib.Run

/-!
# What the replay session cache keeps

A session is stamped when its reader opens, but it enters the cache only when its
layout is done, and the sessions used meanwhile have later stamps. The eviction
that follows the insert goes by the stamps, so it can take the session that is
just being handed out, or one that was handed out after every other.

An insert goes right exactly when the session with the oldest last request is the
one with the earliest stamp. Every other step keeps what it returns whatever
happens around it.
-/

namespace Etherchimp

open ReplayCache

/-! ## What the cache promises, and when it keeps it -/

/-- The sessions in the cache while the step holds the lock: those before it, and the one it
inserts. -/
def ReplayState.held (st : ReplayState) : ReplayStep → KeyedMap String ReplaySession
  | .insert call _ _ =>
      match st.calls.lookup call with
      | some (.built path s) =>
          match st.cache.replaySessions.lookup path with
          | none => st.cache.replaySessions.insert path s
          | some _ => st.cache.replaySessions
      | _ => st.cache.replaySessions
  | _ => st.cache.replaySessions

/-- The promises of the cache, for one step. -/
structure ReplayState.Keeps (st : ReplayState) (a : ReplayStep) : Prop where
  /-- The session a call returns is in the cache under its path, with an open reader. -/
  returned : ∀ path r, st.reply a = some (path, r) →
    ∃ s, (st.step a).cache.replaySessions.lookup path = some s ∧ s.reader = r ∧
      r ∉ (st.step a).cache.closed
  bounded : (st.step a).cache.replaySessions.keys.length ≤ maxReplaySessions
  /-- An evicted session was last requested before every session kept. -/
  evicted : ∀ p e, (st.held a).lookup p = some e →
    (st.step a).cache.replaySessions.lookup p = none →
    ∀ q x, (st.step a).cache.replaySessions.lookup q = some x →
      (st.step a).lastRequest e.reader < (st.step a).lastRequest x.reader

/-! ## The range for the oldest stamp -/

/-- `p` holds the earliest stamp, and comes first in the order among those that do. -/
structure Oldest (sessions : KeyedMap String ReplaySession) (order : List String) (p : String)
    (e : ReplaySession) : Prop where
  held : sessions.lookup p = some e
  first : ∀ q x, q ∈ order → q ≠ p → sessions.lookup q = some x →
    e.lastUsed < x.lastUsed ∨ e.lastUsed = x.lastUsed ∧ order.idxOf p < order.idxOf q

/-- Only one session comes first. -/
theorem Oldest.unique {sessions : KeyedMap String ReplaySession} {order : List String}
    {p q : String} {e x : ReplaySession} (hp : Oldest sessions order p e)
    (hq : Oldest sessions order q x) (hpo : p ∈ order) (hqo : q ∈ order) : q = p := by
  by_contra hne
  have h1 := hp.first q x hqo hne hq.held
  have h2 := hq.first p e hpo (Ne.symm hne) hp.held
  omega

theorem oldestPath_concat (sessions : KeyedMap String ReplaySession) (l : List String)
    (q : String) : oldestPath sessions (l ++ [q])
      = match sessions.lookup q with
        | some x =>
            if (oldestPath sessions l).1 = "" ∨ x.lastUsed < (oldestPath sessions l).2 then
              (q, x.lastUsed)
            else oldestPath sessions l
        | none => oldestPath sessions l := by
  unfold oldestPath
  rw [List.foldl_append]
  rfl

/-- The range finds the session that comes first. -/
theorem oldestPath_oldest {sessions : KeyedMap String ReplaySession} : ∀ {l : List String},
    l.Nodup → (∀ p ∈ l, p ≠ "" ∧ ∃ x, sessions.lookup p = some x) →
    (l = [] ∧ oldestPath sessions l = ("", 0)) ∨
      ∃ p e, oldestPath sessions l = (p, e.lastUsed) ∧ p ∈ l ∧ Oldest sessions l p e := by
  intro l
  induction l using List.reverseRecOn with
  | nil => exact fun _ _ => Or.inl ⟨rfl, rfl⟩
  | append_singleton l q ih =>
    intro hnd hl
    obtain ⟨hndl, -, hfresh⟩ := List.nodup_append.mp hnd
    have hql : q ∉ l := fun hq => hfresh q hq q (List.mem_singleton_self q) rfl
    obtain ⟨hq, x, hx⟩ := hl q (List.mem_append_right l (List.mem_singleton_self q))
    right
    rw [oldestPath_concat, hx]
    dsimp only
    rcases ih hndl (fun p hp => hl p (List.mem_append_left [q] hp)) with
      ⟨rfl, hnil⟩ | ⟨p, e, hacc, hp, hold⟩
    · -- the first key visited
      rw [hnil, if_pos (Or.inl rfl)]
      refine ⟨q, x, rfl, List.mem_singleton_self q, hx, ?_⟩
      intro r y hr hne _
      exact absurd (List.mem_singleton.mp hr) hne
    · have hpq : p ≠ q := fun h => hql (h ▸ hp)
      have hpe : p ≠ "" := (hl p (List.mem_append_left [q] hp)).1
      rw [hacc]
      dsimp only
      by_cases hlt : x.lastUsed < e.lastUsed
      · -- the new key has an earlier stamp than any before it
        rw [if_pos (Or.inr hlt)]
        refine ⟨q, x, rfl, List.mem_append_right l (List.mem_singleton_self q), hx, ?_⟩
        intro r y hr hne hy
        rcases List.mem_append.mp hr with hr | hr
        · by_cases hrp : r = p
          · subst hrp
            rw [hold.held] at hy
            cases hy
            exact Or.inl hlt
          · have := hold.first r y hr hrp hy
            omega
        · exact absurd (List.mem_singleton.mp hr) hne
      · rw [if_neg (by rintro (h | h); exacts [hpe h, hlt h])]
        refine ⟨p, e, rfl, List.mem_append_left [q] hp, hold.held, ?_⟩
        intro r y hr hne hy
        have hidx : (l ++ [q]).idxOf p = l.idxOf p := List.idxOf_append_of_mem hp
        rcases List.mem_append.mp hr with hr | hr
        · rw [hidx, List.idxOf_append_of_mem hr]
          exact hold.first r y hr hne hy
        · rw [List.mem_singleton.mp hr] at hy ⊢
          rw [hx] at hy
          cases hy
          have hqidx : (l ++ [q]).idxOf q = l.length + [q].idxOf q :=
            List.idxOf_append_of_notMem hql
          have hplt := List.idxOf_lt_length_of_mem hp
          omega

/--
The condition on an insert. When a newly built session goes into a full cache,
the cached session whose last request is the oldest of all holds the earliest of
the stamps, the one taken before the build included.
-/
def ReplayState.OldestServed (st : ReplayState) : ReplayStep → Prop
  | .insert call order now => ∀ path s, st.calls.lookup call = some (.built path s) →
      st.cache.replaySessions.lookup path = none →
      maxReplaySessions ≤ st.cache.replaySessions.keys.length →
      ∃ p e, st.cache.replaySessions.lookup p = some e ∧
        Oldest (st.cache.replaySessions.insert path s)
          (order.visit (st.cache.replaySessions.insert path s).keys) p e ∧
        st.lastRequest e.reader < now ∧
        ∀ q x, q ≠ p → st.cache.replaySessions.lookup q = some x →
          st.lastRequest e.reader < st.lastRequest x.reader
  | _ => True

/-! ## One eviction -/

/-- The cache between two critical sections. -/
structure CacheShape (m : ReplayCache) : Prop where
  named : ∀ p s, m.replaySessions.lookup p = some s → p ≠ ""
  bounded : m.replaySessions.keys.length ≤ maxReplaySessions

/-- Inserting into a cache with room evicts nothing. -/
theorem insert_room {m : ReplayCache} {path : String} (hnone : m.replaySessions.lookup path = none)
    (hroom : m.replaySessions.keys.length < maxReplaySessions) (order : RangeOrder)
    (s : ReplaySession) (now : Int) :
    m.insert order path s now
      = (s.reader, { m with replaySessions := m.replaySessions.insert path s }) := by
  unfold ReplayCache.insert
  rw [hnone]
  dsimp only
  have hlen := KeyedMap.length_keys_insert hnone s
  rw [hlen, evict, if_neg]
  rw [hlen]
  omega

/-- Inserting into a full cache evicts the session with the earliest stamp, and only that. -/
theorem insert_full {m : ReplayCache} (hm : CacheShape m) {path : String} (hpath : path ≠ "")
    (hnone : m.replaySessions.lookup path = none)
    (hfull : maxReplaySessions ≤ m.replaySessions.keys.length) (order : RangeOrder)
    (s : ReplaySession) (now : Int) :
    ∃ p e, Oldest (m.replaySessions.insert path s)
        (order.visit (m.replaySessions.insert path s).keys) p e ∧
      m.insert order path s now
        = (s.reader, { replaySessions := (m.replaySessions.insert path s).erase p
                       closed := e.reader :: m.closed }) := by
  have hlen := KeyedMap.length_keys_insert hnone s
  have hsize : m.replaySessions.keys.length = maxReplaySessions := by
    have := hm.bounded
    omega
  have hperm := order.perm (m.replaySessions.insert path s).keys
  have hkeys : ∀ p ∈ order.visit (m.replaySessions.insert path s).keys,
      p ≠ "" ∧ ∃ x, (m.replaySessions.insert path s).lookup p = some x := by
    intro p hp
    obtain ⟨x, hx⟩ := (KeyedMap.mem_keys_iff _ p).mp (hperm.mem_iff.mp hp)
    refine ⟨?_, x, hx⟩
    rw [KeyedMap.lookup_insert_eq] at hx
    split at hx
    · rename_i h; rw [h]; exact hpath
    · exact hm.named p x hx
  rcases oldestPath_oldest (hperm.nodup_iff.mpr (AList.keys_nodup _)) hkeys with
    ⟨hnil, -⟩ | ⟨p, e, hacc, -, hold⟩
  · have h0 : (order.visit (m.replaySessions.insert path s).keys).length = 0 := by
      rw [hnil]; rfl
    rw [hperm.length_eq, hlen] at h0
    omega
  · refine ⟨p, e, hold, ?_⟩
    have herase := KeyedMap.length_keys_erase hold.held
    unfold ReplayCache.insert
    rw [hnone]
    dsimp only
    rw [hlen, evict, if_pos (by rw [hlen]; omega), evictOldest]
    dsimp only
    rw [hacc]
    dsimp only
    rw [hold.held, hsize]
    dsimp only
    rw [maxReplaySessions, evict, if_neg]
    dsimp only
    rw [herase, hlen, hsize]
    omega

/-! ## What a step does -/

/-- What a step replies, and the state it leaves. -/
inductive Outcome (st : ReplayState) : ReplayStep → Option (String × Nat) → ReplayState → Prop
  | hit {path now s} (hs : st.cache.replaySessions.lookup path = some s) :
      Outcome st (.lookup path now) (some (path, s.reader))
        (st.hand { st.cache with
          replaySessions := st.cache.replaySessions.insert path { s with lastUsed := now } }
          s.reader now)
  | miss {path now} (hs : st.cache.replaySessions.lookup path = none) :
      Outcome st (.lookup path now) none
        { st with
          calls := st.calls.insert st.nextCall (.missed path)
          nextCall := st.nextCall + 1
          clock := now }
  | opened {call now path} (hc : st.calls.lookup call = some (.missed path)) :
      Outcome st (.build call true now) none
        { st with
          calls := st.calls.insert call (.built path { reader := call, lastUsed := now })
          clock := now }
  | failed {call now path} (hc : st.calls.lookup call = some (.missed path)) :
      Outcome st (.build call false now) none
        { st with calls := st.calls.erase call, clock := now }
  | idle {a} (hheld : st.held a = st.cache.replaySessions) :
      Outcome st a none { st with clock := a.now }
  | joined {call order now path s existing} (hc : st.calls.lookup call = some (.built path s))
      (hs : st.cache.replaySessions.lookup path = some existing) :
      Outcome st (.insert call order now) (some (path, existing.reader))
        { st.hand { replaySessions :=
                      st.cache.replaySessions.insert path { existing with lastUsed := now }
                    closed := s.reader :: st.cache.closed } existing.reader now with
          calls := st.calls.erase call }
  | inserted {call order now path s} (hc : st.calls.lookup call = some (.built path s))
      (hs : st.cache.replaySessions.lookup path = none) :
      Outcome st (.insert call order now) (some (path, s.reader))
        { st.hand (st.cache.insert order path s now).2 s.reader now with
          calls := st.calls.erase call }

theorem joined_serve {st : ReplayState} {call : Nat} {path : String} {s existing : ReplaySession}
    (hc : st.calls.lookup call = some (.built path s))
    (hs : st.cache.replaySessions.lookup path = some existing) (order : RangeOrder) (now : Int) :
    st.serve (.insert call order now) = (some (path, existing.reader),
      { st.hand { replaySessions :=
                    st.cache.replaySessions.insert path { existing with lastUsed := now }
                  closed := s.reader :: st.cache.closed } existing.reader now with
        calls := st.calls.erase call }) := by
  have hins : st.cache.insert order path s now = (existing.reader,
      { replaySessions := st.cache.replaySessions.insert path { existing with lastUsed := now }
        closed := s.reader :: st.cache.closed }) := by
    unfold ReplayCache.insert
    rw [hs]
  unfold ReplayState.serve
  dsimp only
  rw [hc]
  dsimp only
  rw [hins]

section Insert

variable {st : ReplayState} {call : Nat} {path : String} {s : ReplaySession}
  (hc : st.calls.lookup call = some (.built path s))
  (hnone : st.cache.replaySessions.lookup path = none) (order : RangeOrder) (now : Int)
include hc hnone

theorem insert_serve : st.serve (.insert call order now) = (some (path, s.reader),
    { st.hand (st.cache.insert order path s now).2 s.reader now with
      calls := st.calls.erase call }) := by
  have hreader : (st.cache.insert order path s now).1 = s.reader := by
    unfold ReplayCache.insert
    rw [hnone]
  unfold ReplayState.serve
  dsimp only
  rw [hc]
  dsimp only
  rw [hreader]

theorem insert_held : st.held (.insert call order now) = st.cache.replaySessions.insert path s := by
  unfold ReplayState.held
  dsimp only
  rw [hc]
  dsimp only
  rw [hnone]

end Insert

theorem step_outcome (st : ReplayState) (a : ReplayStep) :
    Outcome st a (st.reply a) (st.step a) := by
  unfold ReplayState.reply ReplayState.step
  cases a with
  | lookup path now =>
    unfold ReplayState.serve ReplayCache.lookup
    dsimp only
    cases hs : st.cache.replaySessions.lookup path with
    | some s => exact .hit hs
    | none => exact .miss hs
  | build call opens now =>
    unfold ReplayState.serve
    dsimp only
    rcases hc : st.calls.lookup call with _ | (path | ⟨path, s⟩)
    · exact .idle rfl
    · cases opens
      · exact .failed hc
      · exact .opened hc
    · exact .idle rfl
  | insert call order now =>
    have hnot (k : Option ReplayCall) (hc : st.calls.lookup call = k)
        (hk : ∀ path s, k ≠ some (.built path s)) :
        Outcome st (.insert call order now) (st.serve (.insert call order now)).1
          (st.serve (.insert call order now)).2 := by
      unfold ReplayState.serve
      dsimp only
      rw [hc]
      rcases k with _ | (path | ⟨path, s⟩)
      · exact .idle (by unfold ReplayState.held; dsimp only; rw [hc])
      · exact .idle (by unfold ReplayState.held; dsimp only; rw [hc])
      · exact absurd rfl (hk path s)
    rcases hc : st.calls.lookup call with _ | (path | ⟨path, s⟩)
    · exact hnot _ hc nofun
    · exact hnot _ hc nofun
    · cases hs : st.cache.replaySessions.lookup path with
      | none =>
        rw [insert_serve hc hs]
        exact .inserted hc hs
      | some existing =>
        rw [joined_serve hc hs]
        exact .joined hc hs

/-! ## What every run keeps -/

/-- Who holds which reader: a call under way, a session in the cache, or nobody any more. -/
structure ReplayInv (cache : ReplayCache) (calls : KeyedMap Nat ReplayCall) (next : Nat) :
    Prop where
  issued : ∀ c k, calls.lookup c = some k → c < next
  built : ∀ c p s, calls.lookup c = some (.built p s) → s.reader = c ∧ p ≠ ""
  named : ∀ p s, cache.replaySessions.lookup p = some s → p ≠ ""
  cached : ∀ p s, cache.replaySessions.lookup p = some s →
    s.reader < next ∧ calls.lookup s.reader = none ∧ s.reader ∉ cache.closed
  apart : ∀ p q s x, cache.replaySessions.lookup p = some s →
    cache.replaySessions.lookup q = some x → s.reader = x.reader → p = q
  closed : ∀ r ∈ cache.closed, r < next ∧ calls.lookup r = none

section Inv

variable {cache : ReplayCache} {calls : KeyedMap Nat ReplayCall} {next : Nat}
  (h : ReplayInv cache calls next)
include h

/-- A session in the cache may be stamped. -/
theorem ReplayInv.stamp {path : String} {s : ReplaySession}
    (hs : cache.replaySessions.lookup path = some s) (now : Int) :
    ReplayInv { cache with
      replaySessions := cache.replaySessions.insert path { s with lastUsed := now } }
      calls next := by
  have hold : ∀ p x, (cache.replaySessions.insert path { s with lastUsed := now }).lookup p
      = some x → ∃ y, cache.replaySessions.lookup p = some y ∧ y.reader = x.reader := by
    intro p x hx
    rw [KeyedMap.lookup_insert_eq] at hx
    split at hx
    · rename_i hp
      cases hx
      exact ⟨s, hp ▸ hs, rfl⟩
    · exact ⟨x, hx, rfl⟩
  refine { h with named := ?_, cached := ?_, apart := ?_ }
  · intro p x hx
    obtain ⟨y, hy, -⟩ := hold p x hx
    exact h.named p y hy
  · intro p x hx
    obtain ⟨y, hy, hr⟩ := hold p x hx
    rw [← hr]
    exact h.cached p y hy
  · intro p q x x' hx hx' heq
    obtain ⟨y, hy, hr⟩ := hold p x hx
    obtain ⟨y', hy', hr'⟩ := hold q x' hx'
    exact h.apart p q y y' hy hy' (by rw [hr, hr', heq])

/-- A call may begin. -/
theorem ReplayInv.begin (path : String) :
    ReplayInv cache (calls.insert next (.missed path)) (next + 1) where
  issued c k hc := by
    rw [KeyedMap.lookup_insert_eq] at hc
    split at hc
    · omega
    · have := h.issued c k hc
      omega
  built c p s hc := by
    rw [KeyedMap.lookup_insert_eq] at hc
    split at hc
    · cases hc
    · exact h.built c p s hc
  named := h.named
  cached p s hs := by
    obtain ⟨hlt, hnone, hopen⟩ := h.cached p s hs
    refine ⟨by omega, ?_, hopen⟩
    rw [KeyedMap.lookup_insert_eq, if_neg (by omega)]
    exact hnone
  apart := h.apart
  closed r hr := by
    obtain ⟨hlt, hnone⟩ := h.closed r hr
    refine ⟨by omega, ?_⟩
    rw [KeyedMap.lookup_insert_eq, if_neg (by omega)]
    exact hnone

/-- A call may build its session. -/
theorem ReplayInv.build {call : Nat} {path : String} (hc : calls.lookup call = some (.missed path))
    (hpath : path ≠ "") (now : Int) :
    ReplayInv cache
      (calls.insert call (.built path { reader := call, lastUsed := now })) next where
  issued c k hk := by
    rw [KeyedMap.lookup_insert_eq] at hk
    split at hk
    · rename_i hcc
      exact hcc ▸ h.issued call _ hc
    · exact h.issued c k hk
  built c p s hk := by
    rw [KeyedMap.lookup_insert_eq] at hk
    split at hk
    · rename_i hcc
      cases hk
      exact ⟨hcc.symm, hpath⟩
    · exact h.built c p s hk
  named := h.named
  cached p s hs := by
    obtain ⟨hlt, hnone, hopen⟩ := h.cached p s hs
    refine ⟨hlt, ?_, hopen⟩
    rw [KeyedMap.lookup_insert_eq, if_neg]
    · exact hnone
    · intro hcc
      rw [hcc, hc] at hnone
      cases hnone
  apart := h.apart
  closed r hr := by
    obtain ⟨hlt, hnone⟩ := h.closed r hr
    refine ⟨hlt, ?_⟩
    rw [KeyedMap.lookup_insert_eq, if_neg]
    · exact hnone
    · intro hcc
      rw [hcc, hc] at hnone
      cases hnone

/-- A call may end. -/
theorem ReplayInv.finish (call : Nat) : ReplayInv cache (calls.erase call) next := by
  have hold : ∀ c k, (calls.erase call).lookup c = some k → calls.lookup c = some k := by
    intro c k hk
    rw [KeyedMap.lookup_erase_eq] at hk
    split at hk
    · cases hk
    · exact hk
  have hgone : ∀ c, calls.lookup c = none → (calls.erase call).lookup c = none := by
    intro c hc
    rw [KeyedMap.lookup_erase_eq]
    split
    · rfl
    · exact hc
  exact
    { issued := fun c k hk => h.issued c k (hold c k hk)
      built := fun c p s hk => h.built c p s (hold c _ hk)
      named := h.named
      cached := fun p s hs =>
        let ⟨hlt, hnone, hopen⟩ := h.cached p s hs
        ⟨hlt, hgone _ hnone, hopen⟩
      apart := h.apart
      closed := fun r hr => ⟨(h.closed r hr).1, hgone r (h.closed r hr).2⟩ }

/-- The reader of a call is its own: no cached session has it, and it is open. -/
theorem ReplayInv.own {call : Nat} {path : String} {s : ReplaySession}
    (hc : calls.lookup call = some (.built path s)) :
    s.reader ∉ cache.closed ∧
      ∀ p x, cache.replaySessions.lookup p = some x → x.reader ≠ s.reader := by
  obtain ⟨hr, -⟩ := h.built call path s hc
  refine ⟨fun hcl => ?_, fun p x hx heq => ?_⟩
  · have hnone := (h.closed s.reader hcl).2
    rw [hr, hc] at hnone
    cases hnone
  · have hnone := (h.cached p x hx).2.1
    rw [heq, hr, hc] at hnone
    cases hnone

/-- A call may close the reader it opened, and end. -/
theorem ReplayInv.drop {call : Nat} {path : String} {s : ReplaySession}
    (hc : calls.lookup call = some (.built path s)) :
    ReplayInv { cache with closed := s.reader :: cache.closed } (calls.erase call) next := by
  obtain ⟨hr, -⟩ := h.built call path s hc
  obtain ⟨-, hown⟩ := h.own hc
  have hend := h.finish call
  refine { hend with cached := ?_, closed := ?_ }
  · intro p x hx
    obtain ⟨hlt, hnone, hopen⟩ := hend.cached p x hx
    refine ⟨hlt, hnone, ?_⟩
    intro hmem
    rcases List.mem_cons.mp hmem with heq | hmem
    · exact hown p x hx heq
    · exact hopen hmem
  · intro r hmem
    rcases List.mem_cons.mp hmem with rfl | hmem
    · refine ⟨hr ▸ h.issued call _ hc, ?_⟩
      rw [KeyedMap.lookup_erase_eq, if_pos hr]
    · exact hend.closed r hmem

/-- A call may put its session into the cache, and end. -/
theorem ReplayInv.enter {call : Nat} {path : String} {s : ReplaySession}
    (hc : calls.lookup call = some (.built path s)) :
    ReplayInv { cache with replaySessions := cache.replaySessions.insert path s }
      (calls.erase call) next := by
  obtain ⟨hr, hpath⟩ := h.built call path s hc
  obtain ⟨hopen, hown⟩ := h.own hc
  have hend := h.finish call
  refine { hend with named := ?_, cached := ?_, apart := ?_ }
  · intro p x hx
    rw [KeyedMap.lookup_insert_eq] at hx
    split at hx
    · rename_i hp
      exact hp ▸ hpath
    · exact h.named p x hx
  · intro p x hx
    rw [KeyedMap.lookup_insert_eq] at hx
    split at hx
    · cases hx
      refine ⟨hr ▸ h.issued call _ hc, ?_, hopen⟩
      rw [KeyedMap.lookup_erase_eq, if_pos hr]
    · exact hend.cached p x hx
  · intro p q x y hx hy heq
    rw [KeyedMap.lookup_insert_eq] at hx hy
    split at hx
    · rename_i hp
      cases hx
      split at hy
      · rename_i hq
        rw [hp, hq]
      · exact absurd heq.symm (hown q y hy)
    · split at hy
      · cases hy
        exact absurd heq (hown p x hx)
      · exact h.apart p q x y hx hy heq

/-- A session may be evicted. -/
theorem ReplayInv.evict {p : String} {e : ReplaySession}
    (he : cache.replaySessions.lookup p = some e) :
    ReplayInv { replaySessions := cache.replaySessions.erase p
                closed := e.reader :: cache.closed } calls next := by
  have hold : ∀ q x, (cache.replaySessions.erase p).lookup q = some x →
      q ≠ p ∧ cache.replaySessions.lookup q = some x := by
    intro q x hx
    rw [KeyedMap.lookup_erase_eq] at hx
    split at hx
    · cases hx
    · rename_i hqp
      exact ⟨hqp, hx⟩
  refine { issued := h.issued, built := h.built, named := ?_, cached := ?_, apart := ?_,
           closed := ?_ }
  · intro q x hx
    exact h.named q x (hold q x hx).2
  · intro q x hx
    obtain ⟨hqp, hx⟩ := hold q x hx
    obtain ⟨hlt, hnone, hopen⟩ := h.cached q x hx
    refine ⟨hlt, hnone, ?_⟩
    intro hmem
    rcases List.mem_cons.mp hmem with heq | hmem
    · exact hqp (h.apart q p x e hx he heq)
    · exact hopen hmem
  · intro q r x y hx hy
    exact h.apart q r x y (hold q x hx).2 (hold r y hy).2
  · intro r hmem
    rcases List.mem_cons.mp hmem with rfl | hmem
    · exact ⟨(h.cached p e he).1, (h.cached p e he).2.1⟩
    · exact h.closed r hmem

end Inv

namespace ReplayState

/-- The invariant of a run. -/
structure Sound (st : ReplayState) : Prop where
  inv : ReplayInv st.cache st.calls st.nextCall
  bounded : st.cache.replaySessions.keys.length ≤ maxReplaySessions

theorem start_sound (now : Int) : (start now).Sound where
  inv :=
    { issued := nofun, built := nofun, named := nofun, cached := nofun, apart := nofun,
      closed := nofun }
  bounded := Nat.zero_le _

/-- A new session enters a cache with room, or the earliest stamp makes room for it. -/
theorem Sound.insert_cases {st : ReplayState} (h : st.Sound) {call : Nat} {path : String}
    {s : ReplaySession} (hc : st.calls.lookup call = some (.built path s))
    (hnone : st.cache.replaySessions.lookup path = none) (order : RangeOrder) (now : Int) :
    (st.cache.replaySessions.keys.length < maxReplaySessions ∧
      (st.cache.insert order path s now).2
        = { st.cache with replaySessions := st.cache.replaySessions.insert path s }) ∨
    (maxReplaySessions ≤ st.cache.replaySessions.keys.length ∧
      ∃ p e, Oldest (st.cache.replaySessions.insert path s)
          (order.visit (st.cache.replaySessions.insert path s).keys) p e ∧
        (st.cache.insert order path s now).2
          = { replaySessions := (st.cache.replaySessions.insert path s).erase p
              closed := e.reader :: st.cache.closed }) := by
  rcases Nat.lt_or_ge st.cache.replaySessions.keys.length maxReplaySessions with hroom | hfull
  · exact Or.inl ⟨hroom, by rw [insert_room hnone hroom]⟩
  · have hpath := (h.inv.built call path s hc).2
    obtain ⟨p, e, hold, hins⟩ :=
      insert_full ⟨h.inv.named, h.bounded⟩ hpath hnone hfull order s now
    exact Or.inr ⟨hfull, p, e, hold, by rw [hins]⟩

/-- **Every step keeps the invariant**, whatever the order of the range. -/
theorem Sound.step {st : ReplayState} (h : st.Sound) {a : ReplayStep} (ha : st.Enabled a) :
    (st.step a).Sound := by
  have hout := step_outcome st a
  generalize st.reply a = r, st.step a = st' at hout
  cases hout with
  | hit hs =>
    refine ⟨h.inv.stamp hs _, ?_⟩
    rw [hand, KeyedMap.length_keys_overwrite hs]
    exact h.bounded
  | @miss path now hs => exact ⟨h.inv.begin path, h.bounded⟩
  | @opened call now path hc =>
    refine ⟨h.inv.build hc ?_ now, h.bounded⟩
    rintro rfl
    exact absurd hc (of_decide_eq_true ha.2)
  | @failed call now path hc => exact ⟨h.inv.finish call, h.bounded⟩
  | idle => exact ⟨h.inv, h.bounded⟩
  | @joined call order now path s existing hc hs =>
    refine ⟨(h.inv.drop hc).stamp hs now, ?_⟩
    rw [hand, KeyedMap.length_keys_overwrite hs]
    exact h.bounded
  | @inserted call order now path s hc hs =>
    have henter := h.inv.enter hc
    have hlen := KeyedMap.length_keys_insert hs s
    rcases h.insert_cases hc hs order now with ⟨hroom, hcache⟩ | ⟨hfull, p, e, hold, hcache⟩
    · rw [hcache]
      refine ⟨henter, ?_⟩
      rw [hand, hlen]
      omega
    · rw [hcache]
      have hb := h.bounded
      refine ⟨henter.evict hold.held, ?_⟩
      rw [hand, KeyedMap.length_keys_erase hold.held, hlen]
      omega

/-! ## When a step keeps the promises -/

/-- A step that evicts nothing only has to return what it should. -/
theorem keeps_of_kept {st : ReplayState} {a : ReplayStep} (hnext : (st.step a).Sound)
    (hreturn : ∀ path r, st.reply a = some (path, r) →
      ∃ s, (st.step a).cache.replaySessions.lookup path = some s ∧ s.reader = r)
    (hkept : ∀ p e, (st.held a).lookup p = some e →
      ∃ x, (st.step a).cache.replaySessions.lookup p = some x) : st.Keeps a where
  returned path r hr := by
    obtain ⟨s, hs, hsr⟩ := hreturn path r hr
    exact ⟨s, hs, hsr, hsr ▸ (hnext.inv.cached path s hs).2.2⟩
  bounded := hnext.bounded
  evicted p e he hgone := by
    obtain ⟨x, hx⟩ := hkept p e he
    rw [hgone] at hx
    cases hx

/-- **An insert into a full cache keeps the promises when the oldest is served.** -/
theorem keeps_full_iff {st : ReplayState} (h : st.Sound) {call : Nat} {order : RangeOrder}
    {now : Int} (ha : st.Enabled (.insert call order now)) {path : String} {s : ReplaySession}
    (hc : st.calls.lookup call = some (.built path s))
    (hnone : st.cache.replaySessions.lookup path = none)
    (hfull : maxReplaySessions ≤ st.cache.replaySessions.keys.length)
    {p : String} {e : ReplaySession}
    (hold : Oldest (st.cache.replaySessions.insert path s)
      (order.visit (st.cache.replaySessions.insert path s).keys) p e)
    (hcache : (st.cache.insert order path s now).2
      = { replaySessions := (st.cache.replaySessions.insert path s).erase p
          closed := e.reader :: st.cache.closed }) :
    st.Keeps (.insert call order now) ↔ st.OldestServed (.insert call order now) := by
  have hnext := h.step ha
  obtain ⟨-, hown⟩ := h.inv.own hc
  have hperm := order.perm (st.cache.replaySessions.insert path s).keys
  have hvisit : ∀ q x, (st.cache.replaySessions.insert path s).lookup q = some x →
      q ∈ order.visit (st.cache.replaySessions.insert path s).keys :=
    fun q x hx => hperm.mem_iff.mpr ((KeyedMap.mem_keys_iff _ q).mpr ⟨x, hx⟩)
  have hheld := insert_held hc hnone order now
  have hstep : st.step (.insert call order now)
      = { st.hand (st.cache.insert order path s now).2 s.reader now with
          calls := st.calls.erase call } := congrArg Prod.snd (insert_serve hc hnone order now)
  have hreply : st.reply (.insert call order now) = some (path, s.reader) :=
    congrArg Prod.fst (insert_serve hc hnone order now)
  have hafter : ∀ q, (st.step (.insert call order now)).cache.replaySessions.lookup q
      = if q = p then none else (st.cache.replaySessions.insert path s).lookup q := by
    intro q
    rw [hstep, hcache]
    exact KeyedMap.lookup_erase_eq _ p q
  -- the session handed out was requested just now, the others as before
  have hrequest : ∀ r, (st.step (.insert call order now)).lastRequest r
      = if r = s.reader then now else st.lastRequest r := by
    intro r
    rw [hstep]
    exact Function.update_apply st.lastRequest s.reader now r
  refine ⟨fun hkeeps => ?_, fun hserved => ?_⟩
  · rintro path' s' hc' hnone' -
    obtain ⟨rfl, rfl⟩ : path = path' ∧ s = s' := by
      rw [hc] at hc'
      cases hc'
      exact ⟨rfl, rfl⟩
    -- the session that is returned stays, so another one went
    have hpp : path ≠ p := by
      rintro rfl
      obtain ⟨x, hx, -⟩ := hkeeps.returned path s.reader hreply
      rw [hafter, if_pos rfl] at hx
      cases hx
    have he : st.cache.replaySessions.lookup p = some e := by
      have hheld' := hold.held
      rwa [KeyedMap.lookup_insert_eq, if_neg (Ne.symm hpp)] at hheld'
    have hlater := hkeeps.evicted p e (hheld ▸ hold.held) (by rw [hafter, if_pos rfl])
    have hne := hown p e he
    refine ⟨p, e, he, hold, ?_, ?_⟩
    · have hlt := hlater path s (by rw [hafter, if_neg hpp, AList.lookup_insert])
      rwa [hrequest, hrequest, if_neg hne, if_pos rfl] at hlt
    · intro q x hqp hx
      have hqpath : q ≠ path := by
        rintro rfl
        rw [hnone] at hx
        cases hx
      have hlt := hlater q x (by
        rw [hafter, if_neg hqp, KeyedMap.lookup_insert_eq, if_neg hqpath, hx])
      rwa [hrequest, hrequest, if_neg hne, if_neg (hown q x hx)] at hlt
  · obtain ⟨p', e', he', hold', hnow, hothers⟩ := hserved path s hc hnone hfull
    obtain rfl : p' = p :=
      hold.unique hold' (hvisit p e hold.held) (hvisit p' e' hold'.held)
    obtain rfl : e' = e := by
      have hheld' := hold'.held
      rw [hold.held] at hheld'
      exact (Option.some.inj hheld').symm
    have hpp : path ≠ p' := by
      rintro rfl
      rw [hnone] at he'
      cases he'
    have hne := hown p' e' he'
    refine { returned := ?_, bounded := hnext.bounded, evicted := ?_ }
    · intro path' r hr
      rw [hreply] at hr
      cases hr
      have hin : (st.step (.insert call order now)).cache.replaySessions.lookup path = some s := by
        rw [hafter, if_neg hpp, AList.lookup_insert]
      exact ⟨s, hin, rfl, (hnext.inv.cached path s hin).2.2⟩
    · intro q x hq hgone y z hz
      -- only the oldest went
      obtain rfl : q = p' := by
        by_contra hqp
        rw [hafter, if_neg hqp, ← hheld, hq] at hgone
        cases hgone
      rw [hheld, hold.held] at hq
      cases hq
      rw [hafter] at hz
      split at hz
      · cases hz
      · rename_i hyq
        rw [hrequest, hrequest, if_neg hne]
        rw [KeyedMap.lookup_insert_eq] at hz
        split at hz
        · cases hz
          rw [if_pos rfl]
          exact hnow
        · rw [if_neg (hown y z hz)]
          exact hothers y z hyq hz

theorem keeps_iff {st : ReplayState} (h : st.Sound) {a : ReplayStep} (ha : st.Enabled a) :
    st.Keeps a ↔ st.OldestServed a := by
  have hnext := h.step ha
  have hout := step_outcome st a
  generalize hr : st.reply a = r, hst : st.step a = st' at hout
  cases hout with
  | @hit path now s hs =>
    refine iff_of_true (keeps_of_kept hnext ?_ ?_) trivial
    · intro path' r' hr'
      rw [hr] at hr'
      cases hr'
      rw [hst]
      exact ⟨_, AList.lookup_insert _, rfl⟩
    · intro p e he
      rw [hst]
      dsimp only [hand]
      rw [KeyedMap.lookup_insert_eq]
      split
      · exact ⟨_, rfl⟩
      · exact ⟨e, he⟩
  | miss | opened | failed =>
    refine iff_of_true (keeps_of_kept hnext ?_ ?_) trivial
    · intro path' r' hr'
      rw [hr] at hr'
      cases hr'
    · intro p e he
      rw [hst]
      exact ⟨e, he⟩
  | @idle _ hheld =>
    refine iff_of_true (keeps_of_kept hnext ?_ ?_) ?_
    · intro path' r' hr'
      rw [hr] at hr'
      cases hr'
    · intro p e he
      rw [hst]
      exact ⟨e, hheld ▸ he⟩
    · cases a with
      | lookup | build => trivial
      | insert call order now =>
        -- an insert that adds nothing is not that of a new session
        intro path s hc hnone _
        rw [insert_held hc hnone] at hheld
        rw [← hheld, AList.lookup_insert] at hnone
        cases hnone
  | @joined call order now path s existing hc hs =>
    refine iff_of_true (keeps_of_kept hnext ?_ ?_) ?_
    · intro path' r' hr'
      rw [hr] at hr'
      cases hr'
      rw [hst]
      exact ⟨_, AList.lookup_insert _, rfl⟩
    · intro p e he
      have hheld : st.held (.insert call order now) = st.cache.replaySessions := by
        unfold held
        dsimp only
        rw [hc]
        dsimp only
        rw [hs]
      rw [hheld] at he
      rw [hst]
      dsimp only [hand]
      rw [KeyedMap.lookup_insert_eq]
      split
      · exact ⟨_, rfl⟩
      · exact ⟨e, he⟩
    · intro path' s' hc' hnone _
      rw [hc] at hc'
      cases hc'
      rw [hs] at hnone
      cases hnone
  | @inserted call order now path s hc hs =>
    rcases h.insert_cases hc hs order now with ⟨hroom, hcache⟩ | ⟨hfull, p, e, hold, hcache⟩
    · refine iff_of_true (keeps_of_kept hnext ?_ ?_) ?_
      · intro path' r' hr'
        rw [hr] at hr'
        cases hr'
        rw [hst, hcache]
        exact ⟨s, AList.lookup_insert _, rfl⟩
      · intro p e he
        rw [insert_held hc hs] at he
        rw [hst, hcache]
        exact ⟨e, he⟩
      · intro path' s' _ _ hfull
        omega
    · exact keeps_full_iff h ha hc hs hfull hold hcache

/--
**The cache keeps what it returns in exactly the runs whose inserts find the oldest served.**

A session is stamped before its layout is built, so at the insert its stamp may
be older than those of the sessions used meanwhile. A run keeps the promises at
every step if and only if, at every insert of a new session into a full cache,
the session with the oldest last request is also the one with the earliest stamp.
-/
theorem replaySessions_iff (now : Int) (run : List ReplayStep)
    (hrun : Run.Guarded step Enabled (start now) run) :
    Run.Guarded step Keeps (start now) run ↔ Run.Guarded step OldestServed (start now) run := by
  have hboth : Run.Guarded step (fun st a => st.Enabled a ∧ st.Keeps a) (start now) run ↔
      Run.Guarded step (fun st a => st.Enabled a ∧ st.OldestServed a) (start now) run :=
    Run.guarded_congr (P := Sound)
      (fun st a h => and_congr_right fun ha => keeps_iff h ha) (fun st a h ha => h.step ha.1)
      (start_sound now)
  refine ⟨fun hk => ?_, fun ho => ?_⟩
  · exact (hboth.mp (hrun.and hk)).mono fun _ _ h => h.2
  · exact (hboth.mpr (hrun.and ho)).mono fun _ _ h => h.2

/-- The keys in the order they are kept. -/
def plainOrder : RangeOrder where
  visit := id
  perm := List.Perm.refl

/-- A call that nothing interrupts. -/
def fetch (call : Nat) (path : String) (now : Int) : List ReplayStep :=
  [.lookup path now, .build call true now, .insert call plainOrder now]

/-- Three files, one after the other: the first one goes. -/
def threeFiles : List ReplayStep := fetch 0 "a" 1 ++ fetch 1 "b" 2 ++ fetch 2 "c" 3

theorem threeFiles_served : Run.Guarded step OldestServed (start 0) threeFiles := by
  -- the first two inserts find room
  refine ⟨trivial, trivial, fun _ _ _ _ hfull => absurd hfull (by decide +kernel),
    trivial, trivial, fun _ _ _ _ hfull => absurd hfull (by decide +kernel),
    trivial, trivial, ?_, trivial⟩
  rintro path s hc - -
  have hbuilt : ReplayCall.built "c" { reader := 2, lastUsed := 3 } = .built path s :=
    Option.some.inj hc
  cases hbuilt
  refine ⟨"a", { reader := 0, lastUsed := 1 }, by decide +kernel, ⟨by decide +kernel, ?_⟩,
    by decide +kernel, ?_⟩
  · intro q x hq hqa hx
    have hkeys : q ∈ ["c", "b", "a"] := hq
    rcases List.mem_cons.mp hkeys with rfl | hkeys
    · cases hx
      exact Or.inl (by decide)
    · rcases List.mem_cons.mp hkeys with rfl | hkeys
      · cases hx
        exact Or.inl (by decide)
      · exact absurd (List.mem_singleton.mp hkeys) hqa
  · intro q x hqa hx
    have hkeys : q ∈ ["b", "a"] := (KeyedMap.mem_keys_iff _ q).mpr ⟨x, hx⟩
    rcases List.mem_cons.mp hkeys with rfl | hkeys
    · cases hx
      decide +kernel
    · exact absurd (List.mem_singleton.mp hkeys) hqa

theorem replaySessions_threeFiles : Run.Guarded step Keeps (start 0) threeFiles :=
  (replaySessions_iff 0 threeFiles (by decide +kernel)).mpr threeFiles_served

/-- The third file is requested first and is still being laid out when the others are used. -/
def slowBuild : List ReplayStep :=
  fetch 0 "a" 1 ++ fetch 1 "b" 2
    ++ [.lookup "c" 3, .build 2 true 3, .lookup "a" 4, .lookup "b" 5]

/-- Its session is evicted as it is handed out. -/
theorem replaySessions_slowBuild :
    Run.Guarded step Enabled (start 0) (slowBuild ++ [.insert 2 plainOrder 6]) ∧
      ¬ Run.Guarded step Keeps (start 0) (slowBuild ++ [.insert 2 plainOrder 6]) := by
  refine ⟨by decide +kernel, fun hkeeps => ?_⟩
  obtain ⟨-, hlast, -⟩ := Run.guarded_append.mp hkeeps
  obtain ⟨s, hs, -⟩ := hlast.returned "c" 2 (by decide +kernel)
  have hgone : ((Run.exec step (start 0) slowBuild).step
      (.insert 2 plainOrder 6)).cache.replaySessions.lookup "c" = none := by decide +kernel
  rw [hgone] at hs
  cases hs

end ReplayState

end Etherchimp
