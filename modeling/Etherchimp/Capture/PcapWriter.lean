import Mathlib.Data.List.Basic

/-!
# The pcap writer

Packets to be kept are handed to a bounded queue, and a goroutine of the writer takes
them out, encodes them into a buffered file and closes the file in the end. Callers never
wait: a packet that finds the queue full is dropped and counted.

The state holds every call in progress by what it does next, so that the steps of any
number of callers, of the goroutine and of any number of `Close` calls interleave freely.
The encoding of one packet is the pcap library's and a parameter.
-/

namespace Etherchimp

namespace Pcap

structure CaptureInfo where
  timestamp : Int
  captureLength : Nat
  length : Nat
  deriving DecidableEq

structure QueuedPacket where
  ci : CaptureInfo
  data : List UInt8
  deriving DecidableEq

/-- `dropLogInterval`, ten seconds. -/
def dropLogInterval : Int := 10 * 1000000000

def pcapQueueSize : Nat := 4096

structure DropCounter where
  /-- Drops since the last report. -/
  count : Nat := 0
  lifetime : Nat := 0
  lastLog : Int

/-- The part of `add` under the lock. -/
def DropCounter.report (d : DropCounter) (now : Int) : DropCounter :=
  if dropLogInterval ≤ now - d.lastLog then { d with lastLog := now, count := 0 } else d

/-- A call of `WritePacket`, by what it does next. -/
inductive CallPhase
  /-- The packet is copied; the send or its refusal is next. -/
  | sending (pkt : QueuedPacket)
  /-- The queue was full: `count.Add`, `lifetime.Add` and the report are next. -/
  | counting
  | totalling
  | reporting
  | returned
  deriving DecidableEq

/-- The goroutine, by what it does next. -/
inductive RunPhase
  | select
  /-- It has seen the quit and empties the queue. -/
  | draining
  | flushing
  | closing
  | exiting
  | exited
  deriving DecidableEq

/-- A call of `Close`, behind its `closeOnce`. -/
inductive CloseCall
  | waiting
  | returned
  deriving DecidableEq

inductive FileOp
  | write (bytes : List UInt8)
  | close
  deriving DecidableEq

structure PcapWriter where
  /-- What was asked of the file, in order. -/
  file : List FileOp
  /-- What the buffered writer still holds. -/
  buf : List UInt8 := []
  ch : List QueuedPacket := []
  quit : Bool := false
  done : Bool := false
  closeOnce : Bool := false
  drops : DropCounter
  phase : RunPhase := .select
  calls : List CallPhase := []
  closes : List CloseCall := []
  /-- What the queue has taken, in order: not kept by the source. -/
  accepted : List QueuedPacket := []

def newPcapWriter (header : List UInt8) (now : Int) : PcapWriter where
  file := [.write header]
  drops := { lastLog := now }

inductive Label
  /-- A caller enters `WritePacket`. -/
  | call (pkt : QueuedPacket)
  /-- A call takes its next step. -/
  | advance (i : Nat) (now : Int)
  /-- The goroutine takes a packet; the buffered writer passes on so many bytes at once. -/
  | receive (spill : Nat)
  | tick
  | quit
  /-- The goroutine's next step on its way out. -/
  | proceed
  /-- A caller enters `Close`. -/
  | close
  | closeReturn (i : Nat)

variable (record : QueuedPacket → List UInt8)

namespace PcapWriter

/-- `bufio.Writer.Flush` -/
def flush (s : PcapWriter) : PcapWriter :=
  if s.buf = [] then s else { s with file := s.file ++ [.write s.buf], buf := [] }

/-- The goroutine writes one packet it received. -/
def writeRecord (s : PcapWriter) (pkt : QueuedPacket) (spill : Nat) : PcapWriter :=
  let bytes := s.buf ++ record pkt
  { s with
    file := if spill = 0 then s.file else s.file ++ [.write (bytes.take spill)]
    buf := bytes.drop spill }

/-- The next step of one `WritePacket`. -/
def advance (s : PcapWriter) (i : Nat) (now : Int) : PcapWriter :=
  match s.calls[i]? with
  | some (.sending pkt) =>
      if s.ch.length < pcapQueueSize then
        { s with
          ch := s.ch ++ [pkt]
          accepted := s.accepted ++ [pkt]
          calls := s.calls.set i .returned }
      else { s with calls := s.calls.set i .counting }
  | some .counting =>
      { s with
        drops := { s.drops with count := s.drops.count + 1 }
        calls := s.calls.set i .totalling }
  | some .totalling =>
      { s with
        drops := { s.drops with lifetime := s.drops.lifetime + 1 }
        calls := s.calls.set i .reporting }
  | some .reporting =>
      { s with drops := s.drops.report now, calls := s.calls.set i .returned }
  | _ => s

/-- The goroutine's steps behind its `select`. -/
def proceed (s : PcapWriter) : PcapWriter :=
  match s.phase with
  -- the default arm is taken only when there is nothing to receive
  | .draining => if s.ch = [] then { s with phase := .flushing } else s
  | .flushing => { s.flush with phase := .closing }
  | .closing => { s with file := s.file ++ [.close], phase := .exiting }
  | .exiting => { s with done := true, phase := .exited }
  | _ => s

end PcapWriter

open PcapWriter

/-- One step; a label that is not enabled changes nothing. -/
def step (s : PcapWriter) : Label → PcapWriter
  | .call pkt => { s with calls := s.calls ++ [.sending pkt] }
  | .advance i now => s.advance i now
  | .receive spill =>
      match s.ch with
      | pkt :: rest =>
          if s.phase = .select ∨ s.phase = .draining then
            { s with ch := rest }.writeRecord record pkt spill
          else s
      | [] => s
  | .tick => if s.phase = .select then s.flush else s
  | .quit => if s.phase = .select ∧ s.quit = true then { s with phase := .draining } else s
  | .proceed => s.proceed
  | .close =>
      { s with
        quit := s.quit || !s.closeOnce
        closeOnce := true
        closes := s.closes ++ [.waiting] }
  | .closeReturn i =>
      if s.done = true ∧ s.closes[i]? = some .waiting then
        { s with closes := s.closes.set i .returned }
      else s

/-- Every caller of `WritePacket` has returned before the first `Close` and none comes after. -/
def ok (s : PcapWriter) : Label → Prop
  | .call _ => s.closes = []
  | .close => ∀ c ∈ s.calls, c = .returned
  | _ => True

instance okDecidable (s : PcapWriter) : ∀ a, Decidable (ok s a)
  | .call _ => inferInstanceAs (Decidable (s.closes = []))
  | .close => inferInstanceAs (Decidable (∀ c ∈ s.calls, c = .returned))
  | .advance _ _ | .receive _ | .tick | .quit | .proceed | .closeReturn _ => .isTrue trivial

end Pcap

end Etherchimp
