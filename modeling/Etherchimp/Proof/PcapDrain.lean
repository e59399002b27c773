import Mathlib.Tactic
import Etherchimp.Capture.PcapWriter
import Etherchimp.Lib.Run

/-!
# Nothing accepted is lost

What the file was given, what the buffered writer holds and what is still queued, in this
order, is the header and everything the queue ever took. The goroutine leaves its `select`
only after a `Close`, which comes after every caller, so nothing is queued behind its back:
when it closes the file the queue and the buffer are empty.
-/

namespace Etherchimp

namespace Pcap

open PcapWriter

variable {record : QueuedPacket → List UInt8}

/-! ## Reading the state -/

/-- How far the goroutine is on its way out. -/
def RunPhase.rank : RunPhase → Nat
  | select => 0
  | draining => 1
  | flushing => 2
  | closing => 3
  | exiting => 4
  | exited => 5

/-- The bytes one file operation writes. -/
def FileOp.bytes : FileOp → List UInt8
  | write bytes => bytes
  | close => []

/-- A call that is neither in the queue nor among the drops. -/
def CallPhase.pending : CallPhase → Bool
  | sending _ | counting | totalling => true
  | reporting | returned => false

/-- The file was written some bytes and never closed. -/
def Written (ops : List FileOp) (bytes : List UInt8) : Prop :=
  ∃ ws : List (List UInt8), ops = ws.map FileOp.write ∧ ws.flatten = bytes

theorem Written.append {ops : List FileOp} {bytes : List UInt8} (h : Written ops bytes)
    (more : List UInt8) : Written (ops ++ [.write more]) (bytes ++ more) := by
  obtain ⟨ws, rfl, rfl⟩ := h
  exact ⟨ws ++ [more], by simp, by simp⟩

/-! ## What a step can do -/

/-- What a label does to the writer, with the guards under which it does it. -/
inductive Moves (record : QueuedPacket → List UInt8) (s : PcapWriter) : Label → PcapWriter → Prop
  | keep {a : Label} : (∀ pkt, a ≠ .call pkt) → a ≠ .close → Moves record s a s
  | call {pkt : QueuedPacket} :
      Moves record s (.call pkt) { s with calls := s.calls ++ [.sending pkt] }
  | send {i : Nat} {now : Int} {pkt : QueuedPacket} : s.calls[i]? = some (.sending pkt) →
      s.ch.length < pcapQueueSize →
      Moves record s (.advance i now)
        { s with
          ch := s.ch ++ [pkt]
          accepted := s.accepted ++ [pkt]
          calls := s.calls.set i .returned }
  -- a refused call on its way through the drop counter
  | drop {i : Nat} {now : Int} {c c' : CallPhase} {d : DropCounter} : s.calls[i]? = some c →
      c ≠ .returned → d.lifetime + (if c'.pending then 1 else 0)
        = s.drops.lifetime + (if c.pending then 1 else 0) →
      Moves record s (.advance i now) { s with drops := d, calls := s.calls.set i c' }
  | receive {spill : Nat} {pkt : QueuedPacket} {rest : List QueuedPacket} : s.ch = pkt :: rest →
      s.phase = .select ∨ s.phase = .draining →
      Moves record s (.receive spill) ({ s with ch := rest }.writeRecord record pkt spill)
  | tick : s.phase = .select → Moves record s .tick s.flush
  | quit : s.phase = .select → s.quit = true → Moves record s .quit { s with phase := .draining }
  | empty : s.phase = .draining → s.ch = [] →
      Moves record s .proceed { s with phase := .flushing }
  | flush : s.phase = .flushing → Moves record s .proceed { s.flush with phase := .closing }
  | closeFile : s.phase = .closing →
      Moves record s .proceed { s with file := s.file ++ [.close], phase := .exiting }
  | exit : s.phase = .exiting →
      Moves record s .proceed { s with done := true, phase := .exited }
  | close : Moves record s .close
      { s with
        quit := s.quit || !s.closeOnce
        closeOnce := true
        closes := s.closes ++ [.waiting] }
  | closeReturn {i : Nat} : s.done = true → s.closes[i]? = some .waiting →
      Moves record s (.closeReturn i) { s with closes := s.closes.set i .returned }

theorem advance_moves (s : PcapWriter) (i : Nat) (now : Int) :
    Moves record s (.advance i now) (s.advance i now) := by
  unfold advance
  split
  · next pkt hi =>
    split
    · next hroom => exact .send hi hroom
    · exact .drop hi nofun rfl
  · next hi => exact .drop hi nofun rfl
  · next hi => exact .drop hi nofun rfl
  · next hi =>
    have hl : (s.drops.report now).lifetime = s.drops.lifetime := by
      unfold DropCounter.report
      split <;> rfl
    exact .drop hi nofun (by rw [hl]; rfl)
  · exact .keep nofun nofun

theorem proceed_moves (s : PcapWriter) : Moves record s .proceed s.proceed := by
  unfold proceed
  split
  · next hp =>
    split
    · next hch => exact .empty hp hch
    · exact .keep nofun nofun
  · next hp => exact .flush hp
  · next hp => exact .closeFile hp
  · next hp => exact .exit hp
  · exact .keep nofun nofun

theorem step_receive (s : PcapWriter) (spill : Nat) :
    Moves record s (.receive spill) (step record s (.receive spill)) := by
  rcases hch : s.ch with _ | ⟨pkt, rest⟩
  · have hs : step record s (.receive spill) = s := by simp only [step, hch]
    rw [hs]
    exact .keep nofun nofun
  · by_cases hp : s.phase = .select ∨ s.phase = .draining
    · have hs : step record s (.receive spill)
          = { s with ch := rest }.writeRecord record pkt spill := by
        simp only [step, hch, if_pos hp]
      rw [hs]
      exact .receive hch hp
    · have hs : step record s (.receive spill) = s := by simp only [step, hch, if_neg hp]
      rw [hs]
      exact .keep nofun nofun

variable (record) in
theorem step_moves (s : PcapWriter) (a : Label) : Moves record s a (step record s a) := by
  cases a with
  | call pkt => exact .call
  | advance i now => exact advance_moves s i now
  | receive spill => exact step_receive s spill
  | tick =>
    show Moves record s .tick (if s.phase = .select then s.flush else s)
    split
    · next hp => exact .tick hp
    · exact .keep nofun nofun
  | quit =>
    show Moves record s .quit
      (if s.phase = .select ∧ s.quit = true then { s with phase := .draining } else s)
    split
    · next hp => exact .quit hp.1 hp.2
    · exact .keep nofun nofun
  | proceed => exact proceed_moves s
  | close => exact .close
  | closeReturn i =>
    show Moves record s (.closeReturn i)
      (if s.done = true ∧ s.closes[i]? = some .waiting then
        { s with closes := s.closes.set i .returned } else s)
    split
    · next hi => exact .closeReturn hi.1 hi.2
    · exact .keep nofun nofun

/-! ## Callers come before closers -/

/-- The goroutine leaves its loop only after a `Close`, and no call outlasts the first. -/
structure Quiet (s : PcapWriter) : Prop where
  quit : s.quit = true → s.closes ≠ []
  calls : s.closes ≠ [] → ∀ c ∈ s.calls, c = .returned
  phase : s.phase ≠ .select → s.quit = true

theorem quiet_init (header : List UInt8) (now : Int) : Quiet (newPcapWriter header now) :=
  ⟨fun h => absurd h Bool.false_ne_true, fun h => absurd rfl h, fun h => absurd rfl h⟩

theorem flush_frame (s : PcapWriter) : s.flush.quit = s.quit ∧ s.flush.closes = s.closes ∧
    s.flush.calls = s.calls ∧ s.flush.phase = s.phase ∧ s.flush.ch = s.ch ∧
    s.flush.accepted = s.accepted ∧ s.flush.drops = s.drops ∧ s.flush.done = s.done := by
  unfold flush
  split <;> exact ⟨rfl, rfl, rfl, rfl, rfl, rfl, rfl, rfl⟩

/-- A call still under way rules out any `Close`. -/
theorem Quiet.open {s : PcapWriter} (h : Quiet s) {i : Nat} {c : CallPhase}
    (hi : s.calls[i]? = some c) (hc : c ≠ .returned) : s.closes = [] := by
  by_contra hne
  exact hc (h.calls hne c (List.mem_of_getElem? hi))

/-- While there is no `Close` the goroutine is in its loop. -/
theorem Quiet.select {s : PcapWriter} (h : Quiet s) (hcl : s.closes = []) : s.phase = .select := by
  by_contra hp
  exact h.quit (h.phase hp) hcl

theorem quiet_step {s : PcapWriter} {a : Label} (h : Quiet s) (ha : ok s a) :
    Quiet (step record s a) := by
  have hm := step_moves record s a
  generalize step record s a = s' at hm
  cases hm with
  | keep => exact h
  | call => exact ⟨h.quit, fun hne => absurd ha hne, h.phase⟩
  | send hi => exact ⟨h.quit, fun hne => absurd (h.open hi nofun) hne, h.phase⟩
  | drop hi hc => exact ⟨h.quit, fun hne => absurd (h.open hi hc) hne, h.phase⟩
  | receive => exact ⟨h.quit, h.calls, h.phase⟩
  | tick =>
    obtain ⟨hq, hcl, hca, hp, -⟩ := flush_frame s
    exact ⟨by rw [hq, hcl]; exact h.quit, by rw [hcl, hca]; exact h.calls,
      by rw [hq, hp]; exact h.phase⟩
  | quit _ hq => exact ⟨h.quit, h.calls, fun _ => hq⟩
  | empty hp => exact ⟨h.quit, h.calls, fun _ => h.phase (by rw [hp]; decide)⟩
  | flush hp =>
    obtain ⟨hq, hcl, hca, -⟩ := flush_frame s
    refine ⟨?_, ?_, fun _ => ?_⟩
    · show s.flush.quit = true → s.flush.closes ≠ []
      rw [hq, hcl]
      exact h.quit
    · show s.flush.closes ≠ [] → ∀ c ∈ s.flush.calls, c = .returned
      rw [hcl, hca]
      exact h.calls
    · exact hq.trans (h.phase (by rw [hp]; decide))
  | closeFile hp => exact ⟨h.quit, h.calls, fun _ => h.phase (by rw [hp]; decide)⟩
  | exit hp => exact ⟨h.quit, h.calls, fun _ => h.phase (by rw [hp]; decide)⟩
  | close =>
    refine ⟨fun _ => by simp, fun _ => ha, fun hne => ?_⟩
    show (s.quit || !s.closeOnce) = true
    rw [h.phase hne, Bool.true_or]
  | @closeReturn i _ hi =>
    have hne : s.closes ≠ [] := fun e => by rw [e] at hi; exact nomatch hi
    have hset : s.closes.set i .returned ≠ [] := fun e => hne (by simpa using e)
    exact ⟨fun _ => hset, fun _ => h.calls hne, h.phase⟩

/-! ## Where the accepted packets are -/

/-- The bytes of the accepted packets, from the file to the queue. -/
structure Stored (record : QueuedPacket → List UInt8) (header : List UInt8) (s : PcapWriter) :
    Prop where
  /-- The file, the buffer and the queue hold the header and all that was accepted. -/
  bytes : ∃ out, out ++ s.buf ++ s.ch.flatMap record = header ++ s.accepted.flatMap record ∧
    (s.phase.rank < 4 → Written s.file out) ∧
    (4 ≤ s.phase.rank → ∃ ops, s.file = ops ++ [.close] ∧ Written ops out)
  queue : 2 ≤ s.phase.rank → s.ch = []
  buffer : 3 ≤ s.phase.rank → s.buf = []
  exited : s.done = true ↔ s.phase = .exited
  returned : .returned ∈ s.closes → s.done = true

/-- A flush moves the buffer behind the file. -/
theorem flush_written {s : PcapWriter} {out : List UInt8} (h : Written s.file out) :
    s.flush.buf = [] ∧ Written s.flush.file (out ++ s.buf) := by
  unfold flush
  split
  · next hb => exact ⟨hb, by rw [hb, List.append_nil]; exact h⟩
  · exact ⟨rfl, h.append _⟩

theorem stored_init (header : List UInt8) (now : Int) :
    Stored record header (newPcapWriter header now) where
  bytes := ⟨header, by simp [newPcapWriter], fun _ => ⟨[header], rfl, by simp⟩,
    fun h => absurd h (by show ¬ 4 ≤ 0; omega)⟩
  queue h := absurd h (by show ¬ 2 ≤ 0; omega)
  buffer h := absurd h (by show ¬ 3 ≤ 0; omega)
  exited := ⟨nofun, nofun⟩
  returned h := nomatch h

theorem stored_step {header : List UInt8} {s : PcapWriter} {a : Label} (hq : Quiet s)
    (h : Stored record header s) : Stored record header (step record s a) := by
  have hm := step_moves record s a
  generalize step record s a = s' at hm
  obtain ⟨out, hout, hw, hwc⟩ := h.bytes
  cases hm with
  | keep => exact h
  | call => exact ⟨h.bytes, h.queue, h.buffer, h.exited, h.returned⟩
  | @send i now pkt hi =>
    have hp : s.phase = .select := hq.select (hq.open hi nofun)
    refine ⟨⟨out, ?_, hw, hwc⟩, fun hr => ?_, h.buffer, h.exited, h.returned⟩
    · simp only [List.flatMap_append, ← List.append_assoc, hout]
    · exact absurd hr (by rw [hp]; decide)
  | drop => exact ⟨⟨out, hout, hw, hwc⟩, h.queue, h.buffer, h.exited, h.returned⟩
  | @receive spill pkt rest hch hp =>
    have hrank : s.phase.rank < 2 := by rcases hp with hp | hp <;> rw [hp] <;> decide
    have hrec : s.ch.flatMap record = record pkt ++ rest.flatMap record := by rw [hch]; rfl
    have hkeep : ∀ more held : List UInt8, more ++ held = s.buf ++ record pkt →
        (out ++ more) ++ held ++ rest.flatMap record = header ++ s.accepted.flatMap record := by
      intro more held e
      rw [List.append_assoc out, e, ← hout, hrec]
      simp only [List.append_assoc]
    refine ⟨?_, fun hr => absurd hr (by show ¬ 2 ≤ s.phase.rank; omega),
      fun hr => absurd hr (by show ¬ 3 ≤ s.phase.rank; omega), h.exited, h.returned⟩
    have hspill : s.phase.rank < 4 → Written s.file out := hw
    by_cases hs : spill = 0
    · -- nothing is passed on: all of it stays in the buffer
      refine ⟨out, ?_, fun _ => ?_, fun hr => absurd hr (by show ¬ 4 ≤ s.phase.rank; omega)⟩
      · have := hkeep [] (s.buf ++ record pkt) rfl
        rw [List.append_nil] at this
        simpa only [writeRecord, hs, List.drop_zero] using this
      · simpa only [writeRecord, hs, if_true] using hw (by omega)
    · refine ⟨out ++ (s.buf ++ record pkt).take spill, ?_, fun _ => ?_,
        fun hr => absurd hr (by show ¬ 4 ≤ s.phase.rank; omega)⟩
      · exact hkeep _ _ (List.take_append_drop spill _)
      · simpa only [writeRecord, if_neg hs] using (hw (by omega)).append _
  | tick hp =>
    have hrank : s.phase.rank = 0 := by rw [hp]; rfl
    obtain ⟨-, hcl, -, hph, hch, hacc, -, hdone⟩ := flush_frame s
    obtain ⟨hbuf, hwritten⟩ := flush_written (hw (by omega))
    refine ⟨⟨out ++ s.buf, ?_, fun _ => hwritten, fun hr => ?_⟩, fun hr => ?_, fun _ => hbuf, ?_, ?_⟩
    · rw [hbuf, hch, hacc, List.append_nil, hout]
    · rw [hph] at hr
      omega
    · rw [hph] at hr
      omega
    · rw [hdone, hph]
      exact h.exited
    · rw [hdone, hcl]
      exact h.returned
  | quit hp _ =>
    have hrank : s.phase.rank = 0 := by rw [hp]; rfl
    exact ⟨⟨out, hout, fun _ => hw (by omega), fun hr => absurd hr (by simp [RunPhase.rank])⟩,
      fun hr => absurd hr (by simp [RunPhase.rank]), fun hr => absurd hr (by simp [RunPhase.rank]),
      ⟨fun hd => absurd ((h.exited.mp hd).symm.trans hp) (by decide), fun e => nomatch e⟩, h.returned⟩
  | empty hp hch =>
    have hrank : s.phase.rank = 1 := by rw [hp]; rfl
    exact ⟨⟨out, hout, fun _ => hw (by omega), fun hr => absurd hr (by simp [RunPhase.rank])⟩, fun _ => hch,
      fun hr => absurd hr (by simp [RunPhase.rank]), ⟨fun hd => absurd ((h.exited.mp hd).symm.trans hp) (by decide), fun e => nomatch e⟩,
      h.returned⟩
  | flush hp =>
    have hrank : s.phase.rank = 2 := by rw [hp]; rfl
    obtain ⟨-, hcl, -, -, hch, hacc, -, hdone⟩ := flush_frame s
    obtain ⟨hbuf, hwritten⟩ := flush_written (hw (by omega))
    refine ⟨⟨out ++ s.buf, ?_, fun _ => hwritten, fun hr => absurd hr (by simp [RunPhase.rank])⟩,
      fun _ => hch.trans (h.queue (by omega)), fun _ => hbuf, ⟨fun hd => ?_, fun e => nomatch e⟩, fun hr => ?_⟩
    · show out ++ s.buf ++ s.flush.buf ++ s.flush.ch.flatMap record
        = header ++ s.flush.accepted.flatMap record
      rw [hbuf, hch, hacc, List.append_nil, hout]
    · exact absurd ((h.exited.mp (hdone.symm.trans hd)).symm.trans hp) (by decide)
    · have hr : CloseCall.returned ∈ s.flush.closes := hr
      rw [hcl] at hr
      exact hdone.trans (h.returned hr)
  | closeFile hp =>
    have hrank : s.phase.rank = 3 := by rw [hp]; rfl
    exact ⟨⟨out, hout, fun hr => absurd hr (by simp [RunPhase.rank]), fun _ => ⟨_, rfl, hw (by omega)⟩⟩,
      fun _ => h.queue (by omega), fun _ => h.buffer (by omega),
      ⟨fun hd => absurd ((h.exited.mp hd).symm.trans hp) (by decide), fun e => nomatch e⟩, h.returned⟩
  | exit hp =>
    have hrank : s.phase.rank = 4 := by rw [hp]; rfl
    exact ⟨⟨out, hout, fun hr => absurd hr (by simp [RunPhase.rank]), fun _ => hwc (by omega)⟩,
      fun _ => h.queue (by omega), fun _ => h.buffer (by omega), ⟨fun _ => rfl, fun _ => rfl⟩,
      fun _ => rfl⟩
  | close =>
    refine ⟨⟨out, hout, hw, hwc⟩, h.queue, h.buffer, h.exited, fun hr => h.returned ?_⟩
    rcases List.mem_append.mp hr with hr | hr
    · exact hr
    · exact nomatch List.mem_singleton.mp hr
  | closeReturn hd => exact ⟨⟨out, hout, hw, hwc⟩, h.queue, h.buffer, h.exited, fun _ => hd⟩

/-! ## Every call is counted -/

/-- Each call is accepted, counted as a drop, or still on its way to one of the two. -/
def Ledger (s : PcapWriter) : Prop :=
  s.accepted.length + s.drops.lifetime + s.calls.countP CallPhase.pending = s.calls.length

/-- One call changes its phase. -/
theorem countP_set_call {calls : List CallPhase} {i : Nat} {c : CallPhase} (hi : calls[i]? = some c)
    (c' : CallPhase) :
    (calls.set i c').countP CallPhase.pending + (if c.pending then 1 else 0)
      = calls.countP CallPhase.pending + if c'.pending then 1 else 0 := by
  obtain ⟨hlt, hget⟩ := List.getElem?_eq_some_iff.mp hi
  have hpos : c.pending = true → 0 < calls.countP CallPhase.pending := fun hc =>
    List.countP_pos_iff.mpr ⟨c, List.mem_of_getElem? hi, hc⟩
  rw [List.countP_set hlt, hget]
  split
  · next hc =>
    have := hpos hc
    omega
  · omega

theorem ledger_step {s : PcapWriter} {a : Label} (h : Ledger s) : Ledger (step record s a) := by
  have hm := step_moves record s a
  generalize step record s a = s' at hm
  unfold Ledger at h ⊢
  cases hm with
  | call =>
    simp only [List.countP_append, List.length_append, List.countP_singleton, List.length_singleton,
      CallPhase.pending, if_true]
    omega
  | send hi =>
    have hc := countP_set_call hi .returned
    simp only [CallPhase.pending, if_true, Bool.false_eq_true, if_false] at hc
    simp only [List.length_append, List.length_singleton, List.length_set]
    omega
  | drop hi _ hd =>
    have hc := countP_set_call hi ‹_›
    simp only [List.length_set]
    omega
  | tick =>
    obtain ⟨-, -, hca, -, -, hacc, hdr, -⟩ := flush_frame s
    rw [hca, hacc, hdr]
    exact h
  | flush =>
    obtain ⟨-, -, hca, -, -, hacc, hdr, -⟩ := flush_frame s
    show s.flush.accepted.length + s.flush.drops.lifetime + s.flush.calls.countP CallPhase.pending
      = s.flush.calls.length
    rw [hca, hacc, hdr]
    exact h
  | _ => exact h

/-! ## When `Close` returns -/

/-- All three, of the runs in which the callers come before the closers. -/
theorem run_invariants (header : List UInt8) (now : Int) {l : List Label}
    (hg : Run.Guarded (step record) ok (newPcapWriter header now) l) :
    let s := Run.exec (step record) (newPcapWriter header now) l
    Quiet s ∧ Stored record header s ∧ Ledger s :=
  Run.invariant (P := fun s => Quiet s ∧ Stored record header s ∧ Ledger s)
    ⟨quiet_init header now, stored_init header now, rfl⟩
    (fun _ _ h ha => ⟨quiet_step h.1 ha, stored_step h.1 h.2.1, ledger_step h.2.2⟩) hg

/--
What holds when `Close` has returned: the file got the header and the record of every
accepted packet, once each and in the order of the queue, and was closed behind the last
write; and every call of `WritePacket` is an accepted packet or a counted drop.
-/
structure Complete (record : QueuedPacket → List UInt8) (header : List UInt8) (s : PcapWriter) :
    Prop where
  written : ∃ ws : List (List UInt8), s.file = ws.map FileOp.write ++ [.close] ∧
    ws.flatten = header ++ s.accepted.flatMap record
  counted : s.accepted.length + s.drops.lifetime = s.calls.length

/-- The writer loses nothing it accepted, whatever the schedule. -/
theorem close_complete (header : List UInt8) (now : Int) (l : List Label)
    (hg : Run.Guarded (step record) ok (newPcapWriter header now) l)
    (hr : .returned ∈ (Run.exec (step record) (newPcapWriter header now) l).closes) :
    Complete record header (Run.exec (step record) (newPcapWriter header now) l) := by
  obtain ⟨hq, hst, hl⟩ := run_invariants header now hg
  generalize Run.exec (step record) (newPcapWriter header now) l = s at hq hst hl hr
  have hp : s.phase = .exited := hst.exited.mp (hst.returned hr)
  have hrank : s.phase.rank = 5 := by rw [hp]; rfl
  obtain ⟨out, hout, -, hclosed⟩ := hst.bytes
  obtain ⟨_, hfile, ws, rfl, hws⟩ := hclosed (by omega)
  rw [hst.queue (by omega), hst.buffer (by omega), List.append_nil, List.flatMap_nil,
    List.append_nil] at hout
  have hnone : s.calls.countP CallPhase.pending = 0 := by
    have hret := hq.calls (List.ne_nil_of_mem hr)
    rw [List.countP_eq_zero]
    intro c hc
    rw [hret c hc]
    exact Bool.false_ne_true
  refine ⟨⟨ws, hfile, hws.trans hout⟩, ?_⟩
  unfold Ledger at hl
  omega

/-! ## `Close` does return -/

/-- How many steps the goroutine has left once it may quit. -/
def remaining (s : PcapWriter) : Nat := s.ch.length + (5 - s.phase.rank)

variable (record) in
/-- After a `Close` the goroutine always has a step that brings it nearer to its end. -/
theorem remaining_step {s : PcapWriter} (hq : s.quit = true) (hp : s.phase ≠ .exited) :
    ∃ a, remaining (step record s a) < remaining s ∧ (step record s a).quit = true := by
  have hflush : s.flush.ch = s.ch := (flush_frame s).2.2.2.2.1
  cases hphase : s.phase with
  | select => exact ⟨.quit, by simp [remaining, step, hphase, hq, RunPhase.rank], by simp [step, hq, hphase]⟩
  | draining =>
    rcases hch : s.ch with _ | ⟨pkt, rest⟩
    · exact ⟨.proceed, by simp [remaining, step, proceed, hphase, hch, RunPhase.rank],
        by simp [step, proceed, hphase, hch, hq]⟩
    · exact ⟨.receive 0, by simp [remaining, step, writeRecord, hphase, hch, RunPhase.rank],
        by simp [step, writeRecord, hphase, hch, hq]⟩
  | flushing =>
    exact ⟨.proceed, by simp [remaining, step, proceed, hphase, hflush, RunPhase.rank],
      by simp [step, proceed, hphase, (flush_frame s).1, hq]⟩
  | closing =>
    exact ⟨.proceed, by simp [remaining, step, proceed, hphase, RunPhase.rank],
      by simp [step, proceed, hphase, hq]⟩
  | exiting =>
    exact ⟨.proceed, by simp [remaining, step, proceed, hphase, RunPhase.rank],
      by simp [step, proceed, hphase, hq]⟩
  | exited => exact absurd hphase hp

/-- From any state a `Close` has reached, the goroutine can run to its end. -/
theorem goroutine_ends : ∀ (n : Nat) (s : PcapWriter), remaining s ≤ n → s.quit = true →
    ∃ l, (Run.exec (step record) s l).phase = .exited
  | n, s, hn, hq => by
    by_cases hp : s.phase = .exited
    · exact ⟨[], hp⟩
    · obtain ⟨a, hlt, hqa⟩ := remaining_step record hq hp
      cases n with
      | zero => omega
      | succ n =>
        obtain ⟨l, hl⟩ := goroutine_ends n (step record s a) (by omega) hqa
        exact ⟨a :: l, hl⟩

/--
Two packets are queued, the goroutine takes the first, and two calls of `Close` wait while
it drains the second.
-/
def twoCloses : List Label :=
  [.call ⟨⟨0, 1, 1⟩, [7]⟩, .call ⟨⟨1, 1, 1⟩, [8]⟩, .advance 0 0, .advance 1 0, .receive 0, .close,
    .quit, .close, .receive 0, .proceed, .proceed, .proceed, .proceed, .closeReturn 1,
    .closeReturn 0]

theorem close_complete_two :
    Complete QueuedPacket.data [1]
        (Run.exec (step QueuedPacket.data) (newPcapWriter [1] 0) twoCloses)
      ∧ (Run.exec (step QueuedPacket.data) (newPcapWriter [1] 0) twoCloses).accepted.length = 2
      ∧ (Run.exec (step QueuedPacket.data) (newPcapWriter [1] 0) twoCloses).closes
        = [.returned, .returned] :=
  ⟨close_complete [1] 0 twoCloses (by decide) (by decide), by decide, by decide⟩

end Pcap

end Etherchimp
