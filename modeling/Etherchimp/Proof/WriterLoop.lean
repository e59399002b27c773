import Etherchimp.Proof.StoreTables

/-!
# The packet index on its way to the database

An accepted event is in the channel, then among the pending rows, then in the
database, always in the order it was sent. `Flush` and `Close` first drain the
channel, but a drain stops at `drainMax` pending rows, and the channel and the
rows already pending can together hold more.
-/

namespace Etherchimp

namespace Store

/-- The packet rows inserted, pending and queued, in the order the events were sent. -/
def rows (s : Store) : List PacketRow :=
  s.db.packets ++ (s.pending ++ s.events).map PacketEvent.row

/-- The event one step puts into the channel. -/
def accepts (s : Store) : Action → List PacketEvent
  | .send ev =>
      if ev.captureID = 0 then [] else if s.events.length < eventsCap then [ev] else []
  | _ => []

/-- The events a run puts into the channel. -/
def accepted (reg : Registry) : Store → List Action → List PacketEvent
  | _, [] => []
  | s, a :: l => s.accepts a ++ accepted reg (step reg s a) l

/--
What a step does to the rows: nothing, one event sent, one event received, a
drain asked for, a flush started or found empty, a batch committed.
-/
inductive QueueMoves (s s' : Store) (a : Action) : Prop
  | keep (ha : s.accepts a = []) (hd : s'.db.packets = s.db.packets)
      (hp : s'.pending = s.pending) (he : s'.events = s.events) (hph : s'.phase = s.phase)
  | send (ev : PacketEvent) (ha : s.accepts a = [ev]) (hroom : s.events.length < eventsCap)
      (hd : s'.db.packets = s.db.packets) (hp : s'.pending = s.pending)
      (he : s'.events = s.events ++ [ev]) (hph : s'.phase = s.phase)
  | receive (ev : PacketEvent) (ha : s.accepts a = []) (he : s.events = ev :: s'.events)
      (hd : s'.db.packets = s.db.packets) (hp : s'.pending = s.pending ++ [ev])
      (hph : (s.phase = .select ∧ s'.phase = .select ∧ s'.pending.length < batchSize)
        ∨ (s.phase = .select ∧ ∃ fb stop, s'.phase = .flushing fb stop)
        ∨ ∃ stop, s.phase = .drain stop ∧ s'.phase = .drain stop)
  | ask (stop : Bool) (ha : s.accepts a = []) (hd : s'.db.packets = s.db.packets)
      (hp : s'.pending = s.pending) (he : s'.events = s.events) (hs : s.phase = .select)
      (hph : s'.phase = .drain stop)
  | flush (fb : FlushBatch) (stop : Bool) (ha : s.accepts a = [])
      (hd : s'.db.packets = s.db.packets) (hp : s'.pending = s.pending)
      (he : s'.events = s.events)
      (hs : s.phase = .select
        ∨ ∃ stop, s.phase = .drain stop ∧ (s.events = [] ∨ drainMax ≤ s.pending.length))
      (hph : s'.phase = .flushing fb stop)
  | empty (stop : Bool) (ha : s.accepts a = []) (hd : s'.db.packets = s.db.packets)
      (hp : s'.pending = s.pending) (hnil : s.pending = []) (he : s'.events = s.events)
      (hs : s.phase = .select ∨ ∃ stop, s.phase = .drain stop ∧ s.events = [])
      (hph : s'.phase = finish stop)
  | commit (fb : FlushBatch) (stop : Bool) (ha : s.accepts a = [])
      (hs : s.phase = .flushing fb stop)
      (hd : s'.db.packets = s.db.packets ++ s.pending.map PacketEvent.row)
      (hp : s'.pending = []) (he : s'.events = s.events) (hph : s'.phase = finish stop)

variable {reg : Registry} {s : Store}

/-- A flush that starts either opens a transaction or has nothing to write. -/
theorem beginFlush_queue (s : Store) (stop : Bool) :
    (s.beginFlush stop).db = s.db ∧ (s.beginFlush stop).pending = s.pending
      ∧ (s.beginFlush stop).events = s.events
      ∧ ((∃ fb, (s.beginFlush stop).phase = .flushing fb stop)
        ∨ (s.pending = [] ∧ (s.beginFlush stop).phase = finish stop)) := by
  unfold beginFlush
  split
  split
  · rename_i h
    exact ⟨rfl, rfl, rfl, Or.inr ⟨h.1, rfl⟩⟩
  · exact ⟨rfl, rfl, rfl, Or.inl ⟨_, rfl⟩⟩

variable (reg) in
theorem step_queue {a : Action} (hf : a ≠ .commit false) :
    QueueMoves s (step reg s a) a := by
  cases a with
  | record ev =>
    refine .keep rfl ?_ ?_ ?_ ?_ <;> simp only [step] <;> split <;> rfl
  | send ev =>
    by_cases h0 : ev.captureID = 0
    · refine .keep ?_ ?_ ?_ ?_ ?_ <;> simp only [step, accepts, if_pos h0]
    · by_cases hroom : s.events.length < eventsCap
      · refine .send ev ?_ hroom ?_ ?_ ?_ ?_ <;>
          simp only [step, accepts, if_neg h0, if_pos hroom]
      · refine .keep ?_ ?_ ?_ ?_ ?_ <;> simp only [step, accepts, if_neg h0, if_neg hroom]
  | receive =>
    cases hp : s.phase with
    | select =>
      cases he : s.events with
      | nil => refine .keep rfl ?_ ?_ ?_ ?_ <;> simp only [step, hp, he]
      | cons ev rest =>
        by_cases hl : batchSize ≤ (s.pending ++ [ev]).length
        · have hstep : step reg s .receive
              = { s with pending := s.pending ++ [ev], events := rest }.beginFlush false := by
            simp only [step, hp, he, if_pos hl]
          obtain ⟨hd, hpend, hev, hph⟩ :=
            beginFlush_queue { s with pending := s.pending ++ [ev], events := rest } false
          rw [← hstep] at hd hpend hev hph
          refine .receive ev rfl (by rw [hev]; exact he) (by rw [hd]) hpend
            (Or.inr (Or.inl ⟨hp, ?_⟩))
          rcases hph with ⟨fb, hph⟩ | ⟨hnil, -⟩
          · exact ⟨fb, false, hph⟩
          · exact absurd hnil (by simp)
        · have hstep : step reg s .receive
              = { s with pending := s.pending ++ [ev], events := rest } := by
            simp only [step, hp, he, if_neg hl]
          rw [hstep]
          exact .receive ev rfl he rfl rfl (Or.inl ⟨hp, hp, Nat.lt_of_not_le hl⟩)
    | _ => refine .keep rfl ?_ ?_ ?_ ?_ <;> simp only [step, hp]
  | tick =>
    cases hp : s.phase with
    | select =>
      have hstep : step reg s .tick = s.beginFlush false := by simp only [step, hp]
      obtain ⟨hd, hpend, hev, hph⟩ := beginFlush_queue s false
      rw [← hstep] at hd hpend hev hph
      rcases hph with ⟨fb, hph⟩ | ⟨hnil, hph⟩
      · exact .flush fb false rfl (by rw [hd]) hpend hev (Or.inl hp) hph
      · exact .empty false rfl (by rw [hd]) hpend hnil hev (Or.inl hp) hph
    | _ => refine .keep rfl ?_ ?_ ?_ ?_ <;> simp only [step, hp]
  | flushReq =>
    cases hp : s.phase with
    | select =>
      have hstep : step reg s .flushReq = { s with phase := .drain false } := by
        simp only [step, hp]
      rw [hstep]
      exact .ask false rfl rfl rfl rfl hp rfl
    | _ => refine .keep rfl ?_ ?_ ?_ ?_ <;> simp only [step, hp]
  | done =>
    cases hp : s.phase with
    | select =>
      have hstep : step reg s .done = { s with phase := .drain true } := by
        simp only [step, hp]
      rw [hstep]
      exact .ask true rfl rfl rfl rfl hp rfl
    | _ => refine .keep rfl ?_ ?_ ?_ ?_ <;> simp only [step, hp]
  | drain =>
    cases hp : s.phase with
    | drain stop =>
      have hflush : step reg s .drain = s.beginFlush stop →
          (s.events = [] ∨ drainMax ≤ s.pending.length) → QueueMoves s (step reg s .drain) .drain := by
        intro hstep hend
        obtain ⟨hd, hpend, hev, hph⟩ := beginFlush_queue s stop
        rw [← hstep] at hd hpend hev hph
        rcases hph with ⟨fb, hph⟩ | ⟨hnil, hph⟩
        · exact .flush fb stop rfl (by rw [hd]) hpend hev (Or.inr ⟨stop, hp, hend⟩) hph
        · refine .empty stop rfl (by rw [hd]) hpend hnil hev (Or.inr ⟨stop, hp, ?_⟩) hph
          rcases hend with hend | hend
          · exact hend
          · rw [hnil] at hend
            exact absurd hend (by decide)
      by_cases hl : s.pending.length < drainMax
      · cases he : s.events with
        | nil => exact hflush (by simp only [step, hp, drainOne, if_pos hl, he]) (Or.inl he)
        | cons ev rest =>
          have hstep : step reg s .drain
              = { s with pending := s.pending ++ [ev], events := rest } := by
            simp only [step, hp, drainOne, if_pos hl, he]
          rw [hstep]
          exact .receive ev rfl he rfl rfl (Or.inr (Or.inr ⟨stop, hp, hp⟩))
      · exact hflush (by simp only [step, hp, drainOne, if_neg hl]) (Or.inr (Nat.le_of_not_lt hl))
    | _ => refine .keep rfl ?_ ?_ ?_ ?_ <;> simp only [step, hp]
  | commit ok =>
    cases ok with
    | false => exact absurd rfl hf
    | true =>
      cases hp : s.phase with
      | flushing fb stop =>
        have hstep : step reg s (.commit true) = { s with
            db := s.db.flushTx s.pending fb, pending := [], phase := finish stop } := by
          simp only [step, hp, if_true]
        rw [hstep]
        exact .commit fb stop rfl hp rfl rfl rfl rfl
      | _ => refine .keep rfl ?_ ?_ ?_ ?_ <;> simp only [step, hp]
  | dropCapture id => exact .keep rfl rfl rfl rfl rfl

/-! ## Nothing is lost or doubled on the way -/

/-- A step adds to the rows what it accepts, and nothing else. -/
theorem rows_step {a : Action} (hf : a ≠ .commit false) :
    (step reg s a).rows = s.rows ++ (s.accepts a).map PacketEvent.row := by
  unfold rows
  cases step_queue reg hf with
  | keep ha hd hp he _ => rw [ha, hd, hp, he, List.map_nil, List.append_nil]
  | send ev ha _ hd hp he _ =>
    rw [ha, hd, hp, he, ← List.append_assoc, List.map_append, List.append_assoc]
  | receive ev ha he hd hp _ => rw [ha, hd, hp, he]; simp
  | ask _ ha hd hp he _ _ => rw [ha, hd, hp, he, List.map_nil, List.append_nil]
  | flush _ _ ha hd hp he _ _ => rw [ha, hd, hp, he, List.map_nil, List.append_nil]
  | empty _ ha hd hp _ he _ _ => rw [ha, hd, hp, he, List.map_nil, List.append_nil]
  | commit _ _ ha _ hd hp he _ => rw [ha, hd, hp, he]; simp

variable (reg s) in
theorem rows_exec {l : List Action} (hf : ∀ a ∈ l, a ≠ .commit false) :
    (Run.exec (step reg) s l).rows = s.rows ++ (accepted reg s l).map PacketEvent.row := by
  induction l generalizing s with
  | nil => simp [accepted]
  | cons a l ih =>
    rw [Run.exec_cons, ih _ fun b hb => hf b (List.mem_cons_of_mem _ hb),
      rows_step (hf a (List.mem_cons_self ..)), accepted, List.map_append, List.append_assoc]

/-! ## How much a drain can leave behind -/

/-- The channel never holds more than its capacity, an idle writer less than a batch. -/
structure Bounded (s : Store) : Prop where
  events : s.events.length ≤ eventsCap
  pending : s.phase = .select → s.pending.length < batchSize

theorem Bounded.step (h : s.Bounded) {a : Action} (hf : a ≠ .commit false) :
    (Store.step reg s a).Bounded := by
  have hcap := h.events
  cases step_queue reg hf with
  | keep _ _ hp he hph => exact ⟨by rw [he]; exact hcap, by rw [hp, hph]; exact h.pending⟩
  | send ev _ hroom _ hp he hph =>
    refine ⟨?_, by rw [hp, hph]; exact h.pending⟩
    rw [he, List.length_append, List.length_singleton]
    omega
  | receive ev _ he _ hp hph =>
    rw [he, List.length_cons] at hcap
    refine ⟨by omega, fun hsel => ?_⟩
    rcases hph with ⟨_, _, hlt⟩ | ⟨_, fb, stop, hph⟩ | ⟨stop, _, hph⟩
    · exact hlt
    · rw [hsel] at hph; cases hph
    · rw [hsel] at hph; cases hph
  | ask stop _ _ hp he _ hph => exact ⟨by rw [he]; exact hcap, fun hsel => by rw [hsel] at hph; cases hph⟩
  | flush fb stop _ _ _ he _ hph =>
    exact ⟨by rw [he]; exact hcap, fun hsel => by rw [hsel] at hph; cases hph⟩
  | empty stop _ _ hp hnil he _ _ =>
    exact ⟨by rw [he]; exact hcap, fun _ => by rw [hp, hnil]; decide⟩
  | commit fb stop _ _ _ hp he _ => exact ⟨by rw [he]; exact hcap, fun _ => by rw [hp]; decide⟩

theorem bounded_run (reg : Registry) (bucketSecs : Int) {l : List Action}
    (hf : ∀ a ∈ l, a ≠ .commit false) : (run reg bucketSecs l).Bounded := by
  have h0 : (openStore bucketSecs).Bounded := ⟨Nat.zero_le _, fun _ => (by decide : 0 < batchSize)⟩
  exact Run.invariant (P := Bounded) h0 (fun _ _ h ha => h.step ha)
    (Run.guarded_of_forall (p := fun a => a ≠ Action.commit false) _ hf)

variable {base : Nat}

/--
Of the first `base` rows an idle writer has inserted all but what one drain can
take up.
-/
structure Behind (base : Nat) (s : Store) : Prop where
  bounded : s.Bounded
  reached : base ≤ s.rows.length
  idle : s.phase = .select → base ≤ s.db.packets.length + drainMax

theorem rows_length (s : Store) :
    s.rows.length = s.db.packets.length + s.pending.length + s.events.length := by
  unfold rows
  rw [List.length_append, List.length_map, List.length_append, Nat.add_assoc]

theorem rows_length_step {a : Action} (hf : a ≠ .commit false) :
    s.rows.length ≤ (step reg s a).rows.length := by
  rw [rows_step hf, List.length_append]
  exact Nat.le_add_right ..

theorem Behind.step (h : s.Behind base) {a : Action} (hf : a ≠ .commit false) :
    (Store.step reg s a).Behind base := by
  have hreached := h.reached
  have hcap := h.bounded.events
  have hmax : eventsCap ≤ drainMax := by decide
  rw [rows_length] at hreached
  refine ⟨h.bounded.step hf, Nat.le_trans h.reached (rows_length_step hf), fun hsel => ?_⟩
  cases step_queue reg hf with
  | keep _ hd _ _ hph => rw [hd]; exact h.idle (by rw [← hph]; exact hsel)
  | send _ _ _ hd _ _ hph => rw [hd]; exact h.idle (by rw [← hph]; exact hsel)
  | receive ev _ _ hd _ hph =>
    rcases hph with ⟨hs, _, _⟩ | ⟨_, fb, stop, hph⟩ | ⟨stop, _, hph⟩
    · rw [hd]; exact h.idle hs
    · rw [hsel] at hph; cases hph
    · rw [hsel] at hph; cases hph
  | ask stop _ _ _ _ _ hph => rw [hsel] at hph; cases hph
  | flush fb stop _ _ _ _ _ hph => rw [hsel] at hph; cases hph
  | empty stop _ hd _ hnil _ _ _ =>
    -- nothing was pending, so only the channel is behind
    rw [hnil, List.length_nil] at hreached
    rw [hd]
    omega
  | commit fb stop _ _ hd _ _ _ =>
    rw [hd, List.length_append, List.length_map]
    omega

/-- How many rows the flush under way will have inserted, at least. -/
def due (s : Store) : Nat :=
  match s.phase with
  | .drain _ => s.db.packets.length + drainMax
  | .flushing _ _ => s.db.packets.length + s.pending.length
  | _ => s.db.packets.length

theorem due_finish (stop : Bool) (h : s.phase = finish stop) : s.due = s.db.packets.length := by
  unfold due
  rw [h]
  cases stop <;> rfl

theorem due_drain {stop : Bool} (h : s.phase = .drain stop) :
    s.due = s.db.packets.length + drainMax := by
  unfold due
  rw [h]

theorem due_flushing {fb : FlushBatch} {stop : Bool} (h : s.phase = .flushing fb stop) :
    s.due = s.db.packets.length + s.pending.length := by
  unfold due
  rw [h]

/-- Of the first `base` rows a flush under way leaves none behind. -/
structure Draining (base : Nat) (s : Store) : Prop where
  reached : base ≤ s.rows.length
  due : base ≤ s.due

theorem Draining.step (h : s.Draining base) {a : Action} (hf : a ≠ .commit false) :
    (Store.step reg s a).Draining base := by
  have hreached := h.reached
  have hdue := h.due
  rw [rows_length] at hreached
  refine ⟨Nat.le_trans h.reached (rows_length_step hf), ?_⟩
  cases step_queue reg hf with
  | keep _ hd hp _ hph =>
    unfold Store.due at hdue ⊢
    rw [hph, hd, hp]
    exact hdue
  | send _ _ _ hd hp _ hph =>
    unfold Store.due at hdue ⊢
    rw [hph, hd, hp]
    exact hdue
  | receive ev _ he hd hp hph =>
    rcases hph with ⟨hs, hph, _⟩ | ⟨hs, fb, stop, hph⟩ | ⟨stop, hs, hph⟩
    · rw [due_finish false hs] at hdue
      rw [due_finish false hph, hd]
      exact hdue
    · rw [due_finish false hs] at hdue
      rw [due_flushing hph, hd]
      omega
    · rw [due_drain hs] at hdue
      rw [due_drain hph, hd]
      exact hdue
  | ask stop _ hd _ _ hs hph =>
    rw [due_finish false hs] at hdue
    rw [due_drain hph, hd]
    omega
  | flush fb stop _ hd hp _ hs hph =>
    rw [due_flushing hph, hd, hp]
    rcases hs with hs | ⟨stop', hs, hnil | hfull⟩
    · rw [due_finish false hs] at hdue
      omega
    · rw [hnil, List.length_nil] at hreached
      omega
    · rw [due_drain hs] at hdue
      omega
  | empty stop _ hd _ hnil _ hs hph =>
    rw [due_finish _ hph, hd]
    rcases hs with hs | ⟨stop', _, he⟩
    · rw [due_finish false hs] at hdue
      omega
    · rw [hnil, he, List.length_nil] at hreached
      omega
  | commit fb stop _ hs hd _ _ hph =>
    rw [due_flushing hs] at hdue
    rw [due_finish _ hph, hd, List.length_append, List.length_map]
    exact hdue

/-! ## What `Flush` and `Close` promise -/

/-- Every row of `s₀` is in the database, once, and only what was sent since may follow. -/
def InsertedOnce (s₀ : Store) (since : List PacketEvent) (s : Store) : Prop :=
  ∃ later, later <+: since ∧ s.db.packets = s₀.rows ++ later.map PacketEvent.row

/--
Whatever happens between the call and its return, once the writer has taken the
request up and is through with it every event that was queued or pending at the
call is inserted exactly once.
-/
def Inserts (reg : Registry) (s₀ : Store) (request : Action) (back : Phase) : Prop :=
  ∀ l₁ l₂, (∀ a ∈ l₁ ++ request :: l₂, a ≠ .commit false) →
    (Run.exec (step reg) s₀ l₁).phase = .select →
    (Run.exec (step reg) s₀ (l₁ ++ request :: l₂)).phase = back →
    InsertedOnce s₀ (accepted reg s₀ (l₁ ++ request :: l₂))
      (Run.exec (step reg) s₀ (l₁ ++ request :: l₂))

/-- The rows in the database come first, so their number says which they are. -/
theorem insertedOnce_iff {s₀ : Store} {l : List Action} (hf : ∀ a ∈ l, a ≠ .commit false) :
    InsertedOnce s₀ (accepted reg s₀ l) (Run.exec (step reg) s₀ l)
      ↔ s₀.rows.length ≤ (Run.exec (step reg) s₀ l).db.packets.length := by
  have hrows := rows_exec reg s₀ hf
  generalize Run.exec (step reg) s₀ l = s at hrows ⊢
  generalize accepted reg s₀ l = since at hrows ⊢
  unfold rows at hrows
  constructor
  · intro ⟨later, _, heq⟩
    rw [heq, List.length_append]
    exact Nat.le_add_right ..
  · intro hlen
    obtain ⟨tail, htail⟩ := List.prefix_of_prefix_length_le
      ⟨_, rfl⟩ ⟨_, hrows⟩ hlen
    have hrest : tail ++ (s.pending ++ s.events).map PacketEvent.row
        = since.map PacketEvent.row := by
      rw [← htail, List.append_assoc] at hrows
      exact List.append_cancel_left hrows
    obtain ⟨later, rest, hsince, hlater, -⟩ := List.map_eq_append_iff.mp hrest.symm
    exact ⟨later, ⟨rest, hsince.symm⟩, by rw [hlater]; exact htail.symm⟩

/-- The request that starts a drain: a `Flush`, or the closing of the store. -/
def request (stop : Bool) : Action := if stop then .done else .flushReq

theorem step_request (stop : Bool) (hs : s.phase = .select) :
    step reg s (request stop) = { s with phase := .drain stop } := by
  cases stop <;> simp only [request, step, hs, Bool.false_eq_true, if_false, if_true]

/-- A drain with room for everything leaves nothing behind. -/
theorem inserts_of_room {s₀ : Store} (hb : s₀.Bounded) (stop : Bool)
    (hroom : s₀.phase = .select → s₀.pending.length + s₀.events.length ≤ drainMax) :
    Inserts reg s₀ (request stop) (finish stop) := by
  intro l₁ l₂ hf hsel hback
  rw [insertedOnce_iff hf]
  have hf₁ : ∀ a ∈ l₁, a ≠ .commit false := fun a ha => hf a (List.mem_append_left _ ha)
  have hf₂ : ∀ a ∈ request stop :: l₂, a ≠ .commit false :=
    fun a ha => hf a (List.mem_append_right _ ha)
  have hstart : s₀.Behind s₀.rows.length := by
    refine ⟨hb, Nat.le_refl _, fun hs => ?_⟩
    have := hroom hs
    rw [rows_length]
    omega
  have hbehind : (Run.exec (step reg) s₀ l₁).Behind s₀.rows.length :=
    Run.invariant (P := Behind s₀.rows.length) hstart (fun _ _ h ha => h.step ha)
      (Run.guarded_of_forall (p := fun a => a ≠ Action.commit false) _ hf₁)
  -- from the moment the request is taken up the flush under way owes every row
  have hasked : (step reg (Run.exec (step reg) s₀ l₁) (request stop)).Draining s₀.rows.length := by
    refine ⟨Nat.le_trans hbehind.reached (rows_length_step (hf₂ _ (List.mem_cons_self ..))), ?_⟩
    rw [step_request stop hsel, @due_drain _ stop rfl]
    exact hbehind.idle hsel
  have hdone : (Run.exec (step reg) s₀ (l₁ ++ request stop :: l₂)).Draining s₀.rows.length := by
    rw [Run.exec_append, Run.exec_cons]
    exact Run.invariant (P := Draining s₀.rows.length) hasked (fun _ _ h ha => h.step ha)
      (Run.guarded_of_forall (p := fun a => a ≠ Action.commit false) _
        fun a ha => hf₂ a (List.mem_cons_of_mem _ ha))
  have hdue := hdone.due
  rw [due_finish _ hback] at hdue
  exact hdue

/-- A drain that is not interrupted takes the events in order. -/
theorem exec_drains {n : Nat} {stop : Bool} (hp : s.phase = .drain stop) (hn : n ≤ s.events.length)
    (hmax : s.pending.length + n ≤ drainMax) :
    Run.exec (step reg) s (List.replicate n .drain)
      = { s with pending := s.pending ++ s.events.take n, events := s.events.drop n } := by
  induction n generalizing s with
  | zero => simp
  | succ n ih =>
    cases he : s.events with
    | nil => rw [he] at hn; cases hn
    | cons ev rest =>
      rw [he, List.length_cons] at hn
      have hlt : s.pending.length < drainMax := by omega
      have hstep : step reg s .drain
          = { s with pending := s.pending ++ [ev], events := rest } := by
        simp only [step, hp, drainOne, if_pos hlt, he]
      rw [List.replicate_succ, Run.exec_cons, hstep,
        ih (s := { s with pending := s.pending ++ [ev], events := rest }) hp
          (Nat.le_of_succ_le_succ hn) (by
            show (s.pending ++ [ev]).length + n ≤ drainMax
            rw [List.length_append, List.length_singleton]
            omega)]
      simp

variable (reg) in
/-- A full drain flushes what is pending and leaves the channel as it is. -/
theorem exec_full {stop : Bool} (hp : s.phase = .drain stop) (hfull : s.pending.length = drainMax) :
    (Run.exec (step reg) s [.drain, .commit true]).db.packets
        = s.db.packets ++ s.pending.map PacketEvent.row
      ∧ (Run.exec (step reg) s [.drain, .commit true]).phase = finish stop := by
  have hflush : step reg s .drain = s.beginFlush stop := by
    simp only [step, hp, drainOne, hfull, Nat.lt_irrefl, if_false]
  obtain ⟨hd, hpend, -, hph⟩ := beginFlush_queue s stop
  rw [← hflush] at hd hpend hph
  rcases hph with ⟨fb, hph⟩ | ⟨hnil, -⟩
  · rw [Run.exec_cons, Run.exec_cons, Run.exec_nil]
    generalize step reg s .drain = s' at hd hpend hph
    simp only [step, hph, if_true]
    refine ⟨?_, trivial⟩
    rw [hd, hpend]
    rfl
  · rw [hnil] at hfull
    exact absurd hfull (by decide)

/-- Without room there is a schedule that leaves an event behind: the request taken up at once. -/
theorem not_inserts_of_full {s₀ : Store} (hb : s₀.Bounded) (stop : Bool)
    (hs : s₀.phase = .select) (hfull : drainMax < s₀.pending.length + s₀.events.length) :
    ¬ Inserts reg s₀ (request stop) (finish stop) := by
  intro h
  have hpend := hb.pending hs
  have hmax : batchSize ≤ drainMax := by decide
  obtain ⟨n, hn⟩ : ∃ n, s₀.pending.length + n = drainMax := ⟨_, Nat.add_sub_of_le (by omega)⟩
  have hexec : Run.exec (step reg) s₀
        ([] ++ request stop :: (List.replicate n .drain ++ [.drain, .commit true]))
      = Run.exec (step reg) { s₀ with
          phase := .drain stop
          pending := s₀.pending ++ s₀.events.take n
          events := s₀.events.drop n } [.drain, .commit true] := by
    rw [List.nil_append, Run.exec_cons, step_request stop hs, Run.exec_append,
      exec_drains (s := { s₀ with phase := .drain stop }) rfl
        (by show n ≤ s₀.events.length; omega) (Nat.le_of_eq hn)]
  have hlen : (s₀.pending ++ s₀.events.take n).length = drainMax := by
    rw [List.length_append, List.length_take]
    omega
  obtain ⟨hdb, hph⟩ := exec_full reg
    (s := { s₀ with
      phase := .drain stop
      pending := s₀.pending ++ s₀.events.take n
      events := s₀.events.drop n }) rfl hlen
  have hf : ∀ a ∈ [] ++ request stop :: (List.replicate n .drain ++ [.drain, .commit true]),
      a ≠ .commit false := by
    intro a ha
    simp only [List.nil_append, List.mem_cons, List.mem_append, List.mem_replicate,
      List.not_mem_nil, or_false] at ha
    rcases ha with rfl | ⟨-, rfl⟩ | rfl | rfl
    · cases stop <;> nofun
    all_goals nofun
  have hins := h [] (List.replicate n .drain ++ [.drain, .commit true]) hf hs
    (by rw [hexec]; exact hph)
  rw [insertedOnce_iff hf, hexec, hdb, rows_length, List.length_append, List.length_map, hlen]
    at hins
  have hins : s₀.db.packets.length + s₀.pending.length + s₀.events.length
      ≤ s₀.db.packets.length + drainMax := hins
  omega

/--
In any state the writer can reach, `Flush` and `Close` insert everything queued
or pending at the call if and only if an idle writer has no more than `drainMax`
of it.
-/
theorem flushClose_insert_iff (reg : Registry) (bucketSecs : Int) {l : List Action}
    (hf : ∀ a ∈ l, a ≠ .commit false) (stop : Bool) :
    Inserts reg (run reg bucketSecs l) (request stop) (finish stop) ↔
      ((run reg bucketSecs l).phase = .select →
        (run reg bucketSecs l).pending.length + (run reg bucketSecs l).events.length
          ≤ drainMax) := by
  have hb := bounded_run reg bucketSecs hf
  refine ⟨fun h hs => ?_, inserts_of_room hb stop⟩
  by_contra hfull
  exact not_inserts_of_full hb stop hs (Nat.lt_of_not_le hfull) h

/-- One event queued: both requests insert it. -/
theorem flushClose_insert_one :
    Inserts (Registry.ofList []) (run (Registry.ofList []) 1 [.send onePacket]) .flushReq .select
      ∧ Inserts (Registry.ofList []) (run (Registry.ofList []) 1 [.send onePacket]) .done
        .stopped :=
  ⟨(flushClose_insert_iff (Registry.ofList []) 1 (l := [.send onePacket]) (by simp) false).mpr
      fun _ => by decide,
    (flushClose_insert_iff (Registry.ofList []) 1 (l := [.send onePacket]) (by simp) true).mpr
      fun _ => by decide⟩

/-- Events sent while nothing else happens queue up. -/
theorem exec_sends {ev : PacketEvent} (h0 : ev.captureID ≠ 0) {n : Nat}
    (hroom : s.events.length + n ≤ eventsCap) :
    Run.exec (step reg) s (List.replicate n (.send ev))
      = { s with events := s.events ++ List.replicate n ev } := by
  induction n generalizing s with
  | zero => simp
  | succ n ih =>
    have hlt : s.events.length < eventsCap := by omega
    have hstep : step reg s (.send ev) = { s with events := s.events ++ [ev] } := by
      simp only [step, if_neg h0, if_pos hlt]
    rw [List.replicate_succ, Run.exec_cons, hstep, ih (s := { s with events := s.events ++ [ev] })
      (by
        show (s.events ++ [ev]).length + n ≤ eventsCap
        rw [List.length_append, List.length_singleton]
        omega)]
    simp [List.replicate_succ]

/-- Events received below the batch size stay pending. -/
theorem exec_receives {n : Nat} (hp : s.phase = .select) (hn : n ≤ s.events.length)
    (hmax : s.pending.length + n < batchSize) :
    Run.exec (step reg) s (List.replicate n .receive)
      = { s with pending := s.pending ++ s.events.take n, events := s.events.drop n } := by
  induction n generalizing s with
  | zero => simp
  | succ n ih =>
    cases he : s.events with
    | nil => rw [he] at hn; cases hn
    | cons ev rest =>
      rw [he, List.length_cons] at hn
      have hlt : ¬ batchSize ≤ (s.pending ++ [ev]).length := by
        rw [List.length_append, List.length_singleton]
        omega
      have hstep : step reg s .receive
          = { s with pending := s.pending ++ [ev], events := rest } := by
        simp only [step, hp, he, if_neg hlt]
      rw [List.replicate_succ, Run.exec_cons, hstep,
        ih (s := { s with pending := s.pending ++ [ev], events := rest }) hp
          (Nat.le_of_succ_le_succ hn) (by
            show (s.pending ++ [ev]).length + n < batchSize
            rw [List.length_append, List.length_singleton]
            omega)]
      simp

/-- A batch but one pending, and then a full channel. -/
def crowdedRun : List Action :=
  List.replicate 4999 (.send onePacket) ++ List.replicate 4999 .receive
    ++ List.replicate 16384 (.send onePacket)

/-- An idle store with some rows pending and some events queued. -/
def crowded (pending queued : Nat) : Store :=
  { openStore 1 with
    pending := List.replicate pending onePacket
    events := List.replicate queued onePacket }

theorem crowded_length (n m : Nat) :
    (crowded n m).pending.length + (crowded n m).events.length = n + m := by
  show (List.replicate n onePacket).length + (List.replicate m onePacket).length = n + m
  rw [List.length_replicate, List.length_replicate]

theorem exec_crowded {n m : Nat} (reg : Registry) (hn : n < batchSize) (hm : m ≤ eventsCap) :
    run reg 1 (List.replicate n (.send onePacket) ++ List.replicate n .receive
        ++ List.replicate m (.send onePacket)) = crowded n m := by
  have hcap : batchSize ≤ eventsCap := by decide
  have h0 : onePacket.captureID ≠ 0 := by decide
  have hlen : (crowded 0 n).events.length = n := List.length_replicate
  have hsent : Run.exec (step reg) (openStore 1) (List.replicate n (.send onePacket))
      = crowded 0 n :=
    exec_sends h0 (by show 0 + n ≤ eventsCap; omega)
  have hreceived : Run.exec (step reg) (crowded 0 n) (List.replicate n .receive)
      = crowded n 0 := by
    rw [exec_receives rfl (Nat.le_of_eq hlen.symm) (by show 0 + n < batchSize; omega)]
    simp [crowded]
  have hqueued : Run.exec (step reg) (crowded n 0) (List.replicate m (.send onePacket))
      = crowded n m :=
    exec_sends h0 (by show 0 + m ≤ eventsCap; omega)
  unfold run
  rw [Run.exec_append, Run.exec_append, hsent, hreceived, hqueued]

/-- With both buffers at their limits neither request inserts everything. -/
theorem flushClose_insert_crowded :
    (∀ a ∈ crowdedRun, a ≠ .commit false)
      ∧ ¬ Inserts (Registry.ofList []) (run (Registry.ofList []) 1 crowdedRun) .flushReq .select
      ∧ ¬ Inserts (Registry.ofList []) (run (Registry.ofList []) 1 crowdedRun) .done .stopped := by
  have hf : ∀ a ∈ crowdedRun, a ≠ .commit false := by
    intro a ha
    rcases List.mem_append.mp ha with ha | ha
    · rcases List.mem_append.mp ha with ha | ha
      all_goals rw [List.eq_of_mem_replicate ha]; nofun
    · rw [List.eq_of_mem_replicate ha]; nofun
  have hrun : run (Registry.ofList []) 1 crowdedRun = crowded 4999 16384 :=
    exec_crowded (Registry.ofList []) (by decide) (by decide)
  have hb := bounded_run (Registry.ofList []) 1 hf
  have hfull := crowded_length 4999 16384
  rw [hrun] at hb ⊢
  have hmore : drainMax < 4999 + 16384 := by decide
  rw [← hfull] at hmore
  exact ⟨hf, not_inserts_of_full hb false rfl hmore, not_inserts_of_full hb true rfl hmore⟩

end Store

end Etherchimp
