import Etherchimp.Server.Hub

/-!
# Send channels are closed once and not used after

Nothing marks a channel as closed for the hub: being in the client table stands
for it. `Open` is that reading as an invariant. Every client in the table has an
open channel, and a channel that was closed belongs to a client that has
registered before, so a client that registers for the first time is not in it.

Within a tick a client is visited only while it is in the table, and each of its
frames is queued only after the one before it was. So the fact carried along one
client's turn is that it is still in the table, which is exactly what a send that
succeeded returns.
-/

namespace Etherchimp

open Panic

variable {F : Type}

namespace Hub

/-- The table holds clients with open channels, all among those that have registered. -/
structure Open (seen : List Nat) (h : Hub F) : Prop where
  mem_seen : ∀ id ∈ h.clients, id ∈ seen
  mem_open : ∀ id ∈ h.clients, (h.chan id).closed = false
  closed_seen : ∀ id, (h.chan id).closed = true → id ∈ seen

variable {seen : List Nat} {h : Hub F} {id : Nat}

/-! ## One channel -/

theorem Open.setConn (hi : Open seen h) (c : Client F) : Open seen (h.setConn id c) :=
  ⟨hi.mem_seen, hi.mem_open, hi.closed_seen⟩

/-- A channel may be replaced by one that is as open as before. -/
theorem Open.setChan (hi : Open seen h) {ch : SendChan F} (hch : ch.closed = (h.chan id).closed) :
    Open seen (h.setChan id ch) where
  mem_seen := hi.mem_seen
  mem_open := by
    intro a ha
    by_cases he : a = id
    · subst he
      simpa [Hub.setChan, hch] using hi.mem_open a ha
    · simpa [Hub.setChan, he] using hi.mem_open a ha
  closed_seen := by
    intro a ha
    by_cases he : a = id
    · subst he
      simp only [Hub.setChan, Function.update_self, hch] at ha
      exact hi.closed_seen a ha
    · simp only [Hub.setChan, Function.update_of_ne he] at ha
      exact hi.closed_seen a ha

/-- Closing the channel of a client that leaves the table. -/
theorem Open.drop (hi : Open seen h) (hid : id ∈ h.clients) :
    Open seen { h.setChan id { h.chan id with closed := true } with clients := h.clients.erase id } where
  mem_seen := by
    intro a ha
    exact hi.mem_seen a (AList.mem_erase.mp ha).2
  mem_open := by
    intro a ha
    obtain ⟨hne, ha⟩ := AList.mem_erase.mp ha
    simpa [Hub.setChan, hne] using hi.mem_open a ha
  closed_seen := by
    intro a ha
    by_cases he : a = id
    · exact he ▸ hi.mem_seen id hid
    · simp only [Hub.setChan, Function.update_of_ne he] at ha
      exact hi.closed_seen a ha

theorem close_open {ch : SendChan F} (hch : ch.closed = false) :
    ch.close = .ok { ch with closed := true } := by
  rw [SendChan.close, hch]
  rfl

/-- The send of a client in the table: a client that was sent to is still in it. -/
theorem trySend_ends (hi : Open seen h) (hid : id ∈ h.clients) (m : OutMsg F) :
    Ends (h.trySend id m) fun r => Open seen r.2 ∧ (r.1 = true → id ∈ r.2.clients) := by
  have hopen := hi.mem_open id hid
  unfold trySend SendChan.offer
  rw [hopen]
  by_cases hroom : (h.chan id).queue.length < sendCap
  · rw [if_neg Bool.false_ne_true, if_pos hroom, ok_bind]
    exact ends_pure ⟨hi.setChan hopen.symm, fun _ => hid⟩
  · rw [if_neg Bool.false_ne_true, if_neg hroom, ok_bind]
    simp only [close_open hopen, ok_bind]
    exact ends_pure ⟨hi.drop hid, fun hs => absurd hs Bool.false_ne_true⟩

/-- Sends in a row stop at the first that drops the client. -/
theorem sendEach_ends (marshals : OutMsg F → Bool) : ∀ (ms : List (OutMsg F)) {h : Hub F},
    Open seen h → id ∈ h.clients →
    Ends (h.sendEach marshals id ms) fun r => Open seen r.2 ∧ (r.1 = true → id ∈ r.2.clients)
  | [], _, hi, hid => ends_pure ⟨hi, fun _ => hid⟩
  | m :: ms, h, hi, hid => by
      unfold sendEach
      split
      · refine (trySend_ends hi hid m).bind fun (sent, h') hr => ?_
        cases sent with
        | true => exact sendEach_ends marshals ms hr.1 (hr.2 rfl)
        | false => exact ends_pure ⟨hr.1, fun hs => absurd hs Bool.false_ne_true⟩
      · exact sendEach_ends marshals ms hi hid

/-! ## The turn of one client -/

theorem sendRawTopology_ends (inp : TickInput F) (hi : Open seen h) (hid : id ∈ h.clients)
    (force : Bool) : Ends (sendRawTopology inp h id force) (Open seen) := by
  unfold sendRawTopology
  dsimp only
  split
  · exact ends_pure hi
  · refine (sendEach_ends _ _ (hi.setConn _) hid).bind fun (sent, h') hr => ?_
    cases sent with
    | true => exact (trySend_ends hr.1 (hr.2 rfl) _).bind fun r' hr' => ends_pure hr'.1
    | false => exact ends_pure hr.1

theorem sendCounts_ends (inp : TickInput F) (view : ViewSnapshot F) (full : Bool)
    (hi : Open seen h) (hid : id ∈ h.clients) :
    Ends (sendView.sendCounts inp id full h view) (Open seen) := by
  unfold sendView.sendCounts
  split
  · exact (sendEach_ends _ _ (hi.setConn _) hid).bind fun r hr => ends_pure hr.1
  · exact ends_pure (hi.setConn _)

variable [Float64 F]

theorem sendView_ends (inp : TickInput F) (flows : List TrafficFlow) (full : Bool)
    (hi : Open seen h) (hid : id ∈ h.clients) :
    Ends (sendView inp h id flows full) (Open seen) := by
  unfold sendView
  refine (sendEach_ends _ _ (hi.setConn _) hid).bind fun (sent, h') hr => ?_
  cases sent with
  | false => exact ends_pure hr.1
  | true =>
      have hin := hr.2 rfl
      dsimp only
      rw [if_neg (by decide)]
      split
      · exact ends_pure (hr.1.setConn _)
      · refine (trySend_ends (hr.1.setConn _) hin _).bind fun (sent', h'') hr' => ?_
        cases sent' with
        | true => exact sendCounts_ends inp _ full hr'.1 (hr'.2 rfl)
        | false => exact ends_pure hr'.1
      · exact sendCounts_ends inp _ full (hr.1.setConn _) hin

theorem serve_ends (inp : TickInput F) (hi : Open seen h) (hid : id ∈ h.clients) :
    Ends (serve inp h id) (Open seen) := by
  unfold serve
  dsimp only
  split
  · exact sendRawTopology_ends inp (hi.setConn _) hid _
  · split
    · exact sendView_ends inp _ _ (hi.setConn _) hid
    · exact sendView_ends inp _ _ (hi.setConn _) hid

theorem tick_ends (inp : TickInput F) (hi : Open seen h) (order : List Nat) :
    Ends (h.tick inp order) (Open seen) := by
  refine Ends.foldlM (fun h id hi => ?_) order hi
  split
  · rename_i hid
    exact serve_ends inp hi hid
  · exact ends_pure hi

/-! ## Runs -/

/-- The clients that register in a list of events, in order. -/
def registrations (l : List (Event F)) : List Nat :=
  l.filterMap fun | .register id => some id | _ => none

/-- One event; a client that registers has not done so before. -/
theorem step_ends (hi : Open seen h) (e : Event F) (hnew : ∀ id ∈ registrations [e], id ∉ seen) :
    Ends (h.step e) (Open (registrations [e] ++ seen)) := by
  cases e with
  | register id =>
      refine ends_pure ⟨?_, ?_, ?_⟩
      · intro a ha
        rcases (AList.mem_insert _).mp ha with rfl | ha
        · exact List.mem_cons_self ..
        · exact List.mem_cons_of_mem _ (hi.mem_seen a ha)
      · intro a ha
        rcases (AList.mem_insert _).mp ha with rfl | ha
        · -- a first registration meets an open channel
          refine Bool.eq_false_iff.mpr fun hc => ?_
          exact hnew a (List.mem_singleton.mpr rfl) (hi.closed_seen a hc)
        · exact hi.mem_open a ha
      · exact fun a ha => List.mem_cons_of_mem _ (hi.closed_seen a ha)
  | unregister id =>
      unfold step
      dsimp only
      split
      · rename_i hid
        rw [close_open (hi.mem_open id hid), ok_bind]
        exact ends_pure (hi.drop hid)
      · exact ends_pure hi
  | resyncAll => exact ends_pure ⟨hi.mem_seen, hi.mem_open, hi.closed_seen⟩
  | tick inp order => exact tick_ends inp hi order
  | control id msg => exact ends_pure (hi.setConn _)
  | drain id n => exact ends_pure (hi.setChan rfl)

theorem foldlM_step_runs : ∀ (l : List (Event F)) {h : Hub F} {seen : List Nat}, Open seen h →
    (registrations l).Nodup → (∀ id ∈ registrations l, id ∉ seen) → Runs (l.foldlM step h)
  | [], _, _, _, _, _ => runs_pure _
  | e :: l, h, seen, hi, hnd, hnew => by
      have hsplit : registrations (e :: l) = registrations [e] ++ registrations l :=
        List.filterMap_append (l := [e])
      rw [hsplit] at hnd hnew
      obtain ⟨h', hstep, hi'⟩ :=
        step_ends hi e fun id hid => hnew id (List.mem_append_left _ hid)
      rw [List.foldlM_cons, hstep, ok_bind]
      refine foldlM_step_runs l hi' (List.Nodup.of_append_right hnd) fun id hid hmem => ?_
      rcases List.mem_append.mp hmem with hmem | hmem
      · exact (List.nodup_append.mp hnd).2.2 id hmem id hid rfl
      · exact hnew id (List.mem_append_right _ hid) hmem

/--
**Channels are safe.** Whatever is registered, unregistered, ticked, drained and
controlled in whatever order, no step closes a closed channel or sends on one, as
long as no client registers twice.
-/
theorem run_runs (cfg : Nat → ViewConfig) (l : List (Event F)) (honce : (registrations l).Nodup) :
    Runs (run cfg l) := by
  have hi : Open [] (newHub cfg : Hub F) :=
    ⟨fun _ h => absurd h (AList.notMem_empty _), fun _ h => absurd h (AList.notMem_empty _),
      fun _ h => absurd h Bool.false_ne_true⟩
  exact foldlM_step_runs l hi honce fun _ _ => List.not_mem_nil

/-- A tick over an empty graph. -/
def quietTick : TickInput Int where
  now := 0
  view _ := { nodes := [], edges := [] }
  flows := []
  protoStats := ∅
  nodeCount := 0
  marshals _ := true

/-- A styled and a raw client, of which the raw one disconnects between two ticks. -/
def mixedRun : List (Event Int) :=
  [.register 0, .register 1, .control 1 (.setViewMode "raw"), .tick quietTick [0, 1],
    .unregister 1, .tick quietTick [0, 1], .drain 0 3]

theorem run_runs_mixed :
    registrations mixedRun = [0, 1] ∧ Runs (run (fun _ => {}) mixedRun) :=
  ⟨rfl, run_runs (fun _ => {}) mixedRun (by decide)⟩

end Hub

end Etherchimp
