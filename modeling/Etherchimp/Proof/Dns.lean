import Etherchimp.Graph.Dns

/-!
# What the resolver answers

An answer is the address itself or a name a lookup of that very address stored. The
cache is checked before a lookup begins and not again before its result is stored, so
several workers may look one address up and store different names; but a lookup begins
only before the first of them is done, and there are ten workers. `Sound.writes` counts
both together.
-/

namespace Etherchimp.DNSResolver

/-- The names stored for an address, oldest first. -/
def storedFor (r : DNSResolver) (ip : String) : List String :=
  (r.stored.filter fun s => s.1 = ip).map (·.2)

/-- The answers given for an address, oldest first. -/
def answersFor (r : DNSResolver) (ip : String) : List String :=
  (r.answers.filter fun a => a.1 = ip).map (·.2)

/-- How many workers are looking the address up. -/
def lookups (r : DNSResolver) (ip : String) : Nat := r.workers.countP fun w => w.lookup = some ip

structure Sound (r : DNSResolver) : Prop where
  workers : r.workers.length = lookupWorkers
  queue : r.lookupChan.length ≤ lookupQueue
  cached : ∀ ip, r.cache.lookup ip = (r.storedFor ip).getLast?
  answered : ∀ ip, ∀ name ∈ r.answersFor ip, name = ip ∨ name ∈ r.storedFor ip
  /-- What was stored and what may still be stored. -/
  writes : ∀ ip, (r.storedFor ip).length + r.lookups ip ≤ lookupWorkers

variable {r : DNSResolver}

theorem sound_new : newDNSResolver.Sound where
  workers := List.length_replicate
  queue := Nat.zero_le _
  cached _ := rfl
  answered _ _ h := by cases h
  writes ip := by
    unfold lookups
    exact (Nat.zero_add _).trans_le (List.countP_le_length.trans_eq List.length_replicate)

theorem storedFor_append {r' : DNSResolver} {ip name : String}
    (h : r'.stored = r.stored ++ [(ip, name)]) (a : String) :
    r'.storedFor a = if a = ip then r.storedFor ip ++ [name] else r.storedFor a := by
  unfold storedFor
  rw [h, List.filter_append, List.map_append]
  by_cases ha : ip = a
  · rw [if_pos ha.symm, ha]
    simp
  · rw [if_neg (Ne.symm ha)]
    simp [ha]

theorem answersFor_append {r' : DNSResolver} {ip name : String}
    (h : r'.answers = r.answers ++ [(ip, name)]) (a : String) :
    r'.answersFor a = if a = ip then r.answersFor ip ++ [name] else r.answersFor a := by
  unfold answersFor
  rw [h, List.filter_append, List.map_append]
  by_cases ha : ip = a
  · rw [if_pos ha.symm, ha]
    simp
  · rw [if_neg (Ne.symm ha)]
    simp [ha]

/-- One worker moves on. -/
theorem countP_moved {l : List Worker} {w : Nat} {a : Worker} (h : l[w]? = some a)
    (p : Worker → Bool) (b : Worker) :
    (l.set w b).countP p + (p a).toNat = l.countP p + (p b).toNat := by
  obtain ⟨hlt, rfl⟩ := List.getElem?_eq_some_iff.mp h
  have hpos : p l[w] = true → 0 < l.countP p :=
    fun hp => List.countP_pos_iff.mpr ⟨l[w], List.getElem_mem hlt, hp⟩
  rw [List.countP_set hlt]
  cases hp : p l[w] with
  | false => cases p b <;> simp
  | true =>
    have := hpos hp
    cases p b <;> simp <;> omega

theorem lookups_moved {r' : DNSResolver} {w : Nat} {a b : Worker} (h : r.workers[w]? = some a)
    (hw : r'.workers = r.workers.set w b) (ip : String) :
    r'.lookups ip + (decide (a.lookup = some ip)).toNat
      = r.lookups ip + (decide (b.lookup = some ip)).toNat := by
  unfold lookups
  rw [hw]
  exact countP_moved h (fun w => w.lookup = some ip) b

/-- What does not look up and does not store leaves the balance alone. -/
theorem Sound.moved {r' : DNSResolver} (h : r.Sound) {w : Nat} {a b : Worker}
    (hget : r.workers[w]? = some a) (hw : r'.workers = r.workers.set w b)
    (hb : ∀ ip, b.lookup = some ip → r.cache.lookup ip = none)
    (hqueue : r'.lookupChan.length ≤ lookupQueue) (hcache : r'.cache = r.cache)
    (hstored : r'.stored = r.stored) (hanswers : r'.answers = r.answers) : r'.Sound := by
  have hfor : ∀ ip, r'.storedFor ip = r.storedFor ip := by
    intro ip
    unfold storedFor
    rw [hstored]
  refine ⟨?_, hqueue, fun ip => ?_, fun ip name hname => ?_, fun ip => ?_⟩
  · rw [hw, List.length_set, h.workers]
  · rw [hcache, hfor, h.cached]
  · rw [hfor]
    refine h.answered ip name ?_
    unfold answersFor at *
    rwa [hanswers] at hname
  · rw [hfor]
    have hmoved := lookups_moved hget hw ip
    by_cases hlook : b.lookup = some ip
    · -- the lookup begins, so nothing was stored yet, and the workers are ten
      have hnone := (h.cached ip).symm.trans (hb ip hlook)
      rw [List.getLast?_eq_none_iff.mp hnone]
      have hle : r'.lookups ip ≤ r'.workers.length := List.countP_le_length
      rw [hw, List.length_set, h.workers] at hle
      simpa using hle
    · have := h.writes ip
      simp only [hlook, decide_false, Bool.toNat_false] at hmoved
      omega

theorem Sound.step (h : r.Sound) (e : Event) : (r.step e).Sound := by
  cases e with
  | resolve ip =>
    simp only [DNSResolver.step]
    split
    · rename_i hostname hl
      refine ⟨h.workers, h.queue, h.cached, fun a name hname => ?_, h.writes⟩
      rw [answersFor_append (r := r) rfl] at hname
      split at hname
      · rename_i ha
        rcases List.mem_append.mp hname with hold | hnew
        · exact ha ▸ h.answered ip name hold
        · rw [List.mem_singleton.mp hnew, ha]
          exact .inr (List.mem_of_getLast? ((h.cached ip).symm.trans hl))
      · exact h.answered a name hname
    · exact ⟨h.workers, h.queue, h.cached, h.answered, h.writes⟩
  | enqueue i =>
    simp only [DNSResolver.step]
    split
    · rename_i ip _
      refine ⟨h.workers, ?_, h.cached, fun a name hname => ?_, h.writes⟩
      · show List.length (if _ then _ else _) ≤ _
        have := h.queue
        split
        · rw [List.length_append, List.length_singleton]
          omega
        · exact this
      · rw [answersFor_append (r := r) rfl] at hname
        split at hname
        · rename_i ha
          rcases List.mem_append.mp hname with hold | hnew
          · exact ha ▸ h.answered ip name hold
          · exact .inl ((List.mem_singleton.mp hnew).trans ha.symm)
        · exact h.answered a name hname
    · exact h
  | take w =>
    simp only [DNSResolver.step]
    split
    · rename_i ip rest hget hchan
      refine h.moved hget rfl (fun _ hl => by cases hl) ?_ rfl rfl rfl
      have := h.queue
      rw [hchan, List.length_cons] at this
      show rest.length ≤ _
      omega
    · exact h
  | look w =>
    simp only [DNSResolver.step]
    split
    · rename_i ip hget
      refine h.moved hget rfl (fun a hl => ?_) h.queue rfl rfl rfl
      cases hcache : r.cache.lookup ip with
      | none =>
        rw [hcache] at hl
        cases hl
        exact hcache
      | some _ =>
        rw [hcache] at hl
        cases hl
    · exact h
  | store w names =>
    simp only [DNSResolver.step]
    split
    · rename_i ip hget
      refine ⟨?_, h.queue, fun a => ?_, fun a name hname => ?_, fun a => ?_⟩
      · show (r.workers.set w _).length = _
        rw [List.length_set, h.workers]
      · rw [storedFor_append (r := r) rfl, KeyedMap.lookup_insert_eq]
        by_cases ha : a = ip
        · rw [if_pos ha, if_pos ha, List.getLast?_concat]
        · rw [if_neg ha, if_neg ha, h.cached]
      · rw [storedFor_append (r := r) rfl]
        have hold := h.answered a name hname
        split
        · rename_i ha
          rw [ha] at hold
          exact hold.imp (fun hn => hn.trans ha.symm) (List.mem_append_left _)
        · exact hold
      · rw [storedFor_append (r := r) rfl]
        have hidle : DNSResolver.workers { r with workers := r.workers.set w .idle }
            = r.workers.set w .idle := rfl
        have hmoved := lookups_moved hget hidle a
        have := h.writes a
        -- the lookup that ends makes room for the name it stores
        by_cases ha : a = ip
        · rw [if_pos ha, List.length_append, List.length_singleton]
          simp only [Worker.lookup, ha, decide_true, reduceCtorEq, decide_false, Bool.toNat_true,
            Bool.toNat_false] at hmoved this ⊢
          show _ + DNSResolver.lookups { r with workers := r.workers.set w .idle } ip ≤ _
          omega
        · rw [if_neg ha]
          simp only [Worker.lookup, Option.some.injEq, Ne.symm ha, reduceCtorEq, decide_false,
            Bool.toNat_false] at hmoved
          show _ + DNSResolver.lookups { r with workers := r.workers.set w .idle } a ≤ _
          omega
    · exact h
  | cancel => exact ⟨h.workers, h.queue, h.cached, h.answered, h.writes⟩
  | exit w =>
    simp only [DNSResolver.step]
    split
    · rename_i hget
      split
      · exact h.moved hget rfl (fun _ hl => by cases hl) h.queue rfl rfl rfl
      · exact h
    · exact h

theorem sound_run (l : List Event) : (run l).Sound :=
  Run.invariant sound_new (fun _ e h _ => h.step e) (Run.guarded_true newDNSResolver l)

/-- In the run a worker ends a lookup of the address, with this name. -/
def LookedUp (l : List Event) (ip name : String) : Prop :=
  ∃ before w names after, l = before ++ Event.store w names :: after
    ∧ (run before).workers[w]? = some (.looking ip) ∧ name = lookupResult ip names

theorem LookedUp.concat {l : List Event} {ip name : String} (h : LookedUp l ip name) (e : Event) :
    LookedUp (l ++ [e]) ip name := by
  obtain ⟨before, w, names, after, rfl, hw, hname⟩ := h
  exact ⟨before, w, names, after ++ [e], by simp, hw, hname⟩

/-- A stored name is what a lookup of that address found. -/
theorem stored_looked (l : List Event) :
    ∀ ip, ∀ name ∈ (run l).storedFor ip, LookedUp l ip name := by
  induction l using List.reverseRecOn with
  | nil => exact fun _ _ h => by cases h
  | append_singleton l e ih =>
    intro ip name hname
    have hold : name ∈ (run l).storedFor ip → LookedUp (l ++ [e]) ip name :=
      fun h => (ih ip name h).concat e
    unfold run at hname
    rw [Run.exec_concat] at hname
    change name ∈ ((run l).step e).storedFor ip at hname
    cases e with
    | store w names =>
      simp only [DNSResolver.step] at hname
      split at hname
      · rename_i ip' hget
        rw [storedFor_append (r := run l) rfl] at hname
        split at hname
        · rename_i ha
          rcases List.mem_append.mp hname with h | h
          · exact hold (ha ▸ h)
          · exact ⟨l, w, names, [], rfl, ha ▸ hget, by rw [List.mem_singleton.mp h, ha]⟩
        · exact hold hname
      · exact hold hname
    | cancel => exact hold hname
    | resolve _ | enqueue _ | take _ | look _ | exit _ =>
      refine hold ?_
      simp only [DNSResolver.step] at hname
      split at hname
      all_goals first
        | exact hname
        | (split at hname <;> exact hname)

/-! ## One caller -/

/-- How often a list of answers changes from one to the next. -/
def renames : List String → Nat
  | a :: b :: l => (if a = b then 0 else 1) + renames (b :: l)
  | _ => 0

theorem renames_concat (l : List String) (a : String) :
    renames (l ++ [a]) = renames l + if l.getLast?.getD a = a then 0 else 1 := by
  induction l with
  | nil => simp [renames]
  | cons x l ih =>
    cases l with
    | nil => by_cases hx : x = a <;> simp [renames, hx]
    | cons y l =>
      rw [List.cons_append, List.cons_append, renames, ← List.cons_append, ih, renames,
        List.getLast?_cons_cons]
      omega

theorem renames_same {l : List String} {a : String} (h : ∀ b ∈ l, b = a) : renames l = 0 := by
  induction l using List.reverseRecOn with
  | nil => rfl
  | append_singleton l b ih =>
    have hl : ∀ x ∈ l, x = a := fun x hx => h x (List.mem_append_left _ hx)
    obtain rfl : b = a := h b (List.mem_append_right _ (List.mem_singleton_self b))
    have hlast : l.getLast?.getD b = b := by
      cases hl' : l.getLast? with
      | none => rfl
      | some c => exact hl c (List.mem_of_getLast? hl')
    rw [renames_concat, ih hl, if_pos hlast]

/-- Calls come from one goroutine: the next begins when the last has returned. -/
def OneCaller (r : DNSResolver) : Event → Prop
  | .resolve _ => r.calls = []
  | _ => True

instance (r : DNSResolver) (e : Event) : Decidable (OneCaller r e) := by
  cases e <;> unfold OneCaller <;> infer_instance

/-- The name an address has now. -/
def current (r : DNSResolver) (ip : String) : String := ((r.storedFor ip).getLast?).getD ip

/-- The answers change only as names are stored. -/
structure Named (r : DNSResolver) : Prop where
  sound : r.Sound
  one : r.calls.length ≤ 1
  /-- A call is only waiting to give what every answer so far was. -/
  waiting : ∀ ip ∈ r.calls, ∀ name ∈ r.answersFor ip, name = ip
  renamed : ∀ ip, renames (r.answersFor ip) < (r.storedFor ip).length
    ∨ (renames (r.answersFor ip) ≤ (r.storedFor ip).length
      ∧ (r.answersFor ip).getLast?.getD (r.current ip) = r.current ip)

theorem Named.quiet {r' : DNSResolver} (h : r.Named) (hs : r'.Sound) (hcalls : r'.calls = r.calls)
    (hstored : r'.stored = r.stored) (hanswers : r'.answers = r.answers) : r'.Named := by
  have hfor : r'.storedFor = r.storedFor := by
    unfold storedFor
    rw [hstored]
  have hans : r'.answersFor = r.answersFor := by
    unfold answersFor
    rw [hanswers]
  refine ⟨hs, by rw [hcalls]; exact h.one, by rw [hcalls, hans]; exact h.waiting, ?_⟩
  unfold current
  rw [hfor, hans]
  exact h.renamed

theorem Named.step (h : r.Named) {e : Event} (he : OneCaller r e) : (r.step e).Named := by
  have hs := h.sound.step e
  cases e with
  | resolve ip =>
    have hcalls : r.calls = [] := he
    simp only [DNSResolver.step] at hs ⊢
    cases hl : r.cache.lookup ip with
    | some hostname =>
      simp only [hl] at hs ⊢
      have hcurrent : r.current ip = hostname := by
        unfold current
        rw [← h.sound.cached, hl]
        rfl
      refine ⟨hs, h.one, fun a ha => absurd (hcalls ▸ ha) List.not_mem_nil, fun a => ?_⟩
      rw [answersFor_append (r := r) rfl]
      by_cases ha : a = ip
      · subst ha
        rw [if_pos rfl, renames_concat, List.getLast?_concat]
        refine .inr ⟨?_, hcurrent.symm⟩
        show _ ≤ (r.storedFor a).length
        rcases h.renamed a with hlt | ⟨hle, hlast⟩
        · split <;> omega
        · rw [hcurrent] at hlast
          rw [if_pos hlast]
          omega
      · rw [if_neg ha]
        exact h.renamed a
    | none =>
      simp only [hl] at hs ⊢
      refine ⟨hs, by simp [hcalls], fun a ha name hname => ?_, h.renamed⟩
      rw [hcalls, List.nil_append, List.mem_singleton] at ha
      -- nothing was stored, so every answer was the address
      rcases h.sound.answered a name hname with heq | hmem
      · exact heq
      · have hnone := (h.sound.cached a).symm.trans (ha ▸ hl)
        rw [List.getLast?_eq_none_iff.mp hnone] at hmem
        cases hmem
  | enqueue i =>
    simp only [DNSResolver.step] at hs ⊢
    cases hi : r.calls[i]? with
    | none =>
      simp only [hi] at hs ⊢
      exact h
    | some ip =>
      simp only [hi] at hs ⊢
      have hmem := List.mem_of_getElem? hi
      obtain ⟨hlt, -⟩ := List.getElem?_eq_some_iff.mp hi
      have hempty : r.calls.eraseIdx i = [] := by
        have := h.one
        exact List.eq_nil_of_length_eq_zero (by rw [List.length_eraseIdx_of_lt hlt]; omega)
      refine ⟨hs, by simp [hempty], by simp [hempty], fun a => ?_⟩
      rw [answersFor_append (r := r) rfl]
      by_cases ha : a = ip
      · subst ha
        have hall : ∀ name ∈ r.answersFor a ++ [a], name = a := by
          intro name hname
          rcases List.mem_append.mp hname with hold | hnew
          · exact h.waiting a hmem name hold
          · exact List.mem_singleton.mp hnew
        rw [if_pos rfl, renames_same hall]
        show 0 < (r.storedFor a).length ∨ (0 ≤ (r.storedFor a).length ∧ _ = r.current a)
        cases hst : r.storedFor a with
        | nil =>
          refine .inr ⟨Nat.zero_le _, ?_⟩
          unfold current
          rw [hst, List.getLast?_concat]
          rfl
        | cons _ _ => exact .inl (Nat.succ_pos _)
      · rw [if_neg ha]
        exact h.renamed a
  | store w names =>
    simp only [DNSResolver.step] at hs ⊢
    split
    · rename_i ip hget
      simp only [hget] at hs
      refine ⟨hs, h.one, h.waiting, fun a => ?_⟩
      unfold current
      rw [storedFor_append (r := r) rfl]
      by_cases ha : a = ip
      · subst ha
        rw [if_pos rfl, List.length_append, List.length_singleton]
        refine .inl ?_
        show renames (r.answersFor a) < _
        rcases h.renamed a with hlt | ⟨hle, -⟩ <;> omega
      · rw [if_neg ha]
        exact h.renamed a
    · exact h
  | cancel => exact h.quiet hs rfl rfl rfl
  | take _ | look _ | exit _ =>
    refine h.quiet hs ?_ ?_ ?_
    all_goals
      simp only [DNSResolver.step]
      split
      all_goals first
        | rfl
        | (split <;> rfl)

/-- The address has its name, and neither a worker nor a call is still at it. -/
structure Settled (ip name : String) (r : DNSResolver) : Prop where
  cached : r.cache.lookup ip = some name
  quiet : ∀ w ∈ r.workers, w.lookup ≠ some ip
  returned : ip ∉ r.calls

variable {ip name : String}

theorem mem_set_cases {l : List Worker} {i : Nat} {a b : Worker} (h : a ∈ l.set i b) :
    a = b ∨ a ∈ l := (List.mem_or_eq_of_mem_set h).symm

theorem Settled.step (h : Settled ip name r) (e : Event) : Settled ip name (r.step e)
    ∧ ∃ k, (r.step e).answersFor ip = r.answersFor ip ++ List.replicate k name := by
  have hsame : ∃ k, r.answersFor ip = r.answersFor ip ++ List.replicate k name :=
    ⟨0, (List.append_nil _).symm⟩
  have hmoved : ∀ {w : Nat} {b : Worker}, b.lookup ≠ some ip →
      ∀ a ∈ r.workers.set w b, a.lookup ≠ some ip := by
    intro w b hb a ha
    rcases mem_set_cases ha with rfl | ha
    · exact hb
    · exact h.quiet a ha
  cases e with
  | resolve a =>
    simp only [DNSResolver.step]
    split
    · rename_i hostname hl
      refine ⟨⟨h.cached, h.quiet, h.returned⟩, ?_⟩
      rw [answersFor_append (r := r) rfl]
      by_cases ha : ip = a
      · subst ha
        rw [h.cached, Option.some.injEq] at hl
        exact ⟨1, by rw [if_pos rfl, hl, List.replicate_one]⟩
      · rw [if_neg ha]
        exact hsame
    · rename_i hl
      refine ⟨⟨h.cached, h.quiet, ?_⟩, hsame⟩
      show ip ∉ r.calls ++ [a]
      rw [List.mem_append, List.mem_singleton]
      rintro (hold | rfl)
      · exact h.returned hold
      · rw [h.cached] at hl
        cases hl
  | enqueue i =>
    simp only [DNSResolver.step]
    split
    · rename_i a hi
      have hmem := List.mem_of_getElem? hi
      have hne : ip ≠ a := fun heq => h.returned (heq ▸ hmem)
      refine ⟨⟨h.cached, h.quiet, fun hm => h.returned (List.mem_of_mem_eraseIdx hm)⟩, ?_⟩
      rw [answersFor_append (r := r) rfl, if_neg hne]
      exact hsame
    · exact ⟨h, hsame⟩
  | take w =>
    simp only [DNSResolver.step]
    split
    · exact ⟨⟨h.cached, hmoved (fun h => by cases h), h.returned⟩, hsame⟩
    · exact ⟨h, hsame⟩
  | look w =>
    simp only [DNSResolver.step]
    split
    · rename_i a _
      refine ⟨⟨h.cached, hmoved ?_, h.returned⟩, hsame⟩
      -- a worker that took the address finds its name
      intro heq
      split at heq
      · cases heq
      · rename_i hnone
        cases heq
        rw [h.cached] at hnone
        exact hnone rfl
    · exact ⟨h, hsame⟩
  | store w names =>
    simp only [DNSResolver.step]
    split
    · rename_i a hget
      have hne : ip ≠ a := by
        rintro rfl
        exact h.quiet _ (List.mem_of_getElem? hget) rfl
      refine ⟨⟨?_, hmoved (fun h => by cases h), h.returned⟩, hsame⟩
      rw [KeyedMap.lookup_insert_eq, if_neg hne]
      exact h.cached
    · exact ⟨h, hsame⟩
  | cancel => exact ⟨⟨h.cached, h.quiet, h.returned⟩, hsame⟩
  | exit w =>
    simp only [DNSResolver.step]
    split
    · split
      · exact ⟨⟨h.cached, hmoved (fun h => by cases h), h.returned⟩, hsame⟩
      · exact ⟨h, hsame⟩
    · exact ⟨h, hsame⟩

theorem Settled.exec (l : List Event) (h : Settled ip name r) :
    Settled ip name (Run.exec DNSResolver.step r l)
      ∧ ∃ k, (Run.exec DNSResolver.step r l).answersFor ip = r.answersFor ip ++ List.replicate k name := by
  induction l generalizing r with
  | nil => exact ⟨h, 0, (List.append_nil _).symm⟩
  | cons e l ih =>
    obtain ⟨hstep, k, hk⟩ := h.step e
    obtain ⟨hend, j, hj⟩ := ih hstep
    refine ⟨hend, k + j, ?_⟩
    rw [Run.exec_cons, hj, hk, List.append_assoc, List.replicate_append_replicate]

/-! ## The results -/

/--
**An answer is the address or what a worker that was looking that address up found**,
however calls and workers take turns. No address is stored more often than there are workers.
-/
theorem resolver_answers (l : List Event) :
    (∀ ip, ∀ name ∈ (run l).answersFor ip, name = ip ∨ LookedUp l ip name)
      ∧ (∀ ip, (run l).cache.lookup ip = ((run l).storedFor ip).getLast?)
      ∧ (∀ ip, ((run l).storedFor ip).length ≤ lookupWorkers)
      ∧ (run l).lookupChan.length ≤ lookupQueue := by
  have h := sound_run l
  refine ⟨fun ip name hname => ?_, h.cached, fun ip => ?_, h.queue⟩
  · exact (h.answered ip name hname).imp_right (stored_looked l ip name)
  · exact (Nat.le_add_right _ _).trans (h.writes ip)

end Etherchimp.DNSResolver
