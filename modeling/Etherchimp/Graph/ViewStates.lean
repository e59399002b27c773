import Etherchimp.Graph.BuildView

/-!
# What builds remember of each other

`BuildView` gets its config by value, so what it remembers of a client between two builds
is kept in a table of the package, under the client's layout engine. The table is bounded,
and a lookup that finds it full empties it first.
-/

namespace Etherchimp

def maxViewStates : Nat := 64

section Table

variable {ι : Type} [DecidableEq ι]

/-- The table a lookup leaves, and the state it returns. -/
def viewStateFor (viewStates : KeyedMap ι ViewState) (le : ι) : KeyedMap ι ViewState × ViewState :=
  let viewStates := if maxViewStates ≤ viewStates.entries.length then ∅ else viewStates
  match viewStates.lookup le with
  | some vs => (viewStates, vs)
  | none => (viewStates.insert le {}, {})

/-- One call of `BuildView` with a layout engine. -/
structure BuildCall (ι F : Type) where
  /-- How this call visits maps and sorts. -/
  go : Runtime
  engine : ι
  raw : RawSnapshot
  overrides : OverrideStore F := ∅
  pins : KeyedMap String (Vec F) := ∅
  vlanByIP : KeyedMap String UInt16 := ∅

/-- The layout engines, the table, and what the calls so far did. -/
structure ViewTable (ι F : Type) where
  engines : ι → LayoutEngine F
  viewStates : KeyedMap ι ViewState := ∅
  /-- Which engine each call was for and whether it aggregated: not kept by the source. -/
  log : List (ι × Bool) := []

variable {F : Type} [FloatMath F] [RuneCase]

namespace ViewTable

variable (cfg : ι → ViewConfig) (s : ViewTable ι F) (c : BuildCall ι F)

/-- What a call passes on to the build. -/
def input : ViewInput F where
  client := some (s.engines c.engine, (viewStateFor s.viewStates c.engine).2)
  overrides := c.overrides
  pins := c.pins
  vlanByIP := c.vlanByIP

/-- The nodes left by the protocol filter. -/
def filtered : List Node := survivors (cfg c.engine) c.raw

/-- The call folds its nodes into supernodes. -/
def aggregates : Bool :=
  aggActive (cfg c.engine) (s.input c).state (filtered cfg c).length

/-- One call. -/
def call : ViewTable ι F :=
  let viewStates := (viewStateFor s.viewStates c.engine).1
  let r := buildView c.go c.raw (cfg c.engine) (s.input c)
  match r.2 with
  | some (le, vs) =>
      { engines := fun e => if e = c.engine then le else s.engines e
        viewStates := viewStates.insert c.engine vs
        log := s.log ++ [(c.engine, s.aggregates cfg c)] }
  | none => s

end ViewTable

end Table

end Etherchimp
