import Etherchimp.Graph.Overrides
import Etherchimp.Proof.Replica
import Etherchimp.Server.Tick

/-!
# The hub with what stands around it

Between the graph and a browser there is more than the tick. A request changes the
override store and then asks the hub for a resync, through a channel that holds one
token and drops the others. The hub takes the token when it comes to it. On the other
side a write pump takes messages off a client's channel and sends them.

What is stated of a client is stated of its stream: of the messages sent so far and those
queued, and what they add up to when each is applied in turn. A browser may apply less,
because its throttle lets a newer delta take the place of one that waits.

A request is in progress from the change of the store to the token, and any number of
them may be. The hub's own steps come between any two of these.
-/

namespace Etherchimp

open Panic

variable {F : Type}

/-- What a stream comes to with one message more; its style deltas alone count. -/
def ViewMirror.add (m : ViewMirror F) : OutMsg F → ViewMirror F
  | .style d => m.receive d
  | .positions _ | .counts _ | .rawMeta | .rawFrame => m

/-- What the queued messages make of what those before them came to. -/
def SendChan.total (ch : SendChan F) (m : ViewMirror F) : ViewMirror F :=
  ch.queue.foldl ViewMirror.add m

variable [FloatMath F] [RuneCase]

structure LiveHub (F : Type) [FloatMath F] [RuneCase] where
  ticks : TickHub F
  overrides : OverrideTable F := ∅
  /-- The channel of `MarkResyncAll` holds its token. -/
  resyncAll : Bool := false
  /-- How many requests have changed the store and have yet to ask for the resync. -/
  unmarked : Nat := 0
  /-- The messages the pump has sent to each client, in order; the program keeps no record. -/
  sent : Nat → List (OutMsg F) := fun _ => []

namespace LiveHub

inductive Event (F : Type)
  /-- A step of the hub, of a client's pumps, or of the graph. -/
  | hub (e : TickHub.Event F)
  | setOverride (id : String) (o : StoredOverride F)
  | deleteOverride (id : String)
  | markResyncAll

/-- A tick reads the store. -/
def tickEnv (s : LiveHub F) (env : TickEnv F) : TickEnv F :=
  { env with overrides := s.overrides.shown, pins := s.overrides.pins }

def step (rng : Nat → F) (s : LiveHub F) : Event F → Except Panic (LiveHub F)
  | .hub (.tick env) => return { s with ticks := ← s.ticks.step rng (.tick (s.tickEnv env)) }
  | .hub .resyncAll =>
      -- an empty channel has nothing to receive
      if s.resyncAll then
        return { s with ticks := ← s.ticks.step rng .resyncAll, resyncAll := false }
      else return s
  | .hub (.drain id n) =>
      return { s with
        ticks := ← s.ticks.step rng (.drain id n)
        sent := Function.update s.sent id (s.sent id ++ (s.ticks.hub.chan id).queue.take n) }
  | .hub e => return { s with ticks := ← s.ticks.step rng e }
  | .setOverride id o =>
      return { s with overrides := s.overrides.set id o, unmarked := s.unmarked + 1 }
  | .deleteOverride id =>
      return { s with overrides := s.overrides.delete id, unmarked := s.unmarked + 1 }
  | .markResyncAll =>
      if s.unmarked = 0 then return s
      else return { s with resyncAll := true, unmarked := s.unmarked - 1 }

/-- What the messages sent to a client add up to. -/
def streamed (s : LiveHub F) (id : Nat) : ViewMirror F := (s.sent id).foldl ViewMirror.add {}

/-- A new hub with the overrides there are, and no client yet. -/
def start (cfg : Nat → ViewConfig) (rng : Nat → F) (overrides : OverrideTable F) : LiveHub F where
  ticks := TickHub.start cfg rng
  overrides := overrides

def run (cfg : Nat → ViewConfig) (rng : Nat → F) (overrides : OverrideTable F)
    (l : List (Event F)) : Except Panic (LiveHub F) :=
  l.foldlM (step rng) (start cfg rng overrides)

end LiveHub

end Etherchimp
