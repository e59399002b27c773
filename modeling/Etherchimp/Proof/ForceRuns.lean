import Etherchimp.Lib.Run
import Etherchimp.Proof.LayoutModes

/-!
# Runs of the force layout

A client in force mode steps its engine over one snapshot after another. A step first
updates the burst bookkeeping, reheats once where a burst ends, and then either passes
the gate, and nothing else happens, or relaxes.
-/

namespace Etherchimp

namespace LayoutEngine

/-- One call of `Step` in force mode. -/
structure ForceCall (F : Type) where
  go : Runtime := .stable
  raw : RawSnapshot
  args : StepArgs F := {}

section Steps

variable {F : Type} [FloatMath F]

def inBurst (le : LayoutEngine F) : Bool := (le.burst.lookup "force").getD false

/-- The stored force position of a node. -/
def forcePosition (le : LayoutEngine F) (id : String) : Option (Vec F) :=
  ((le.positions.lookup "force").getD ∅).lookup id

/-- The one reheat at the end of a burst. -/
def reheatOnce (le : LayoutEngine F) : LayoutEngine F :=
  let cool : F := Float64.mul forceReheatTemp (FloatMath.decimal 55 2)
  { le with
    temp :=
      if FloatMath.lt ((le.temp.lookup "force").getD (Float64.ofInt 0)) cool then
        le.temp.insert "force" cool
      else le.temp
    settled := le.settled.insert "force" false }

/-- The engine a step brings to the gate. -/
def beforeGate (le : LayoutEngine F) (c : ForceCall F) : LayoutEngine F :=
  let t := le.trackBurst "force" c.raw
  if t.2.2 then t.1.reheatOnce else t.1

/-- The gate is open: the step relaxes. -/
def relaxes (le : LayoutEngine F) (c : ForceCall F) : Bool :=
  !(le.beforeGate c).forceCanSkip "force" c.raw c.args.pins

/-- What a step does when the gate is open. -/
def relaxed (le : LayoutEngine F) (c : ForceCall F) : LayoutEngine F :=
  let b := le.beforeGate c
  { b with pins := b.pins.insert "force" c.args.pins }.stepForce c.raw c.args.pins c.args.radii none
    "force" (le.trackBurst "force" c.raw).2.1

variable [RuneCase]

def forceStep (le : LayoutEngine F) (c : ForceCall F) : LayoutEngine F :=
  le.step c.go c.raw ["force"] c.args

/-- The engine of a client after some calls. -/
def forceRun (rng : Nat → F) (calls : List (ForceCall F)) : LayoutEngine F :=
  Run.exec forceStep (newLayoutEngine rng) calls

theorem forceRun_concat (rng : Nat → F) (done : List (ForceCall F)) (c : ForceCall F) :
    forceRun rng (done ++ [c]) = (forceRun rng done).forceStep c := Run.exec_concat ..

variable {le : LayoutEngine F}

/-- **One step**: the bookkeeping, then the gate. -/
theorem forceStep_eq (hf : le.frozen = ∅) (c : ForceCall F) :
    le.forceStep c = if le.relaxes c then le.relaxed c else le.beforeGate c := by
  have hopen : (le.frozen.lookup "force").getD false = false := by
    rw [hf]
    rfl
  have hstep : le.forceStep c = le.stepDefault c.raw "force" c.args.pins c.args.radii := by
    show stepMode c.go c.raw c.args le "force" = _
    unfold stepMode
    rw [hopen, if_neg Bool.false_ne_true]
    rfl
  rw [hstep]
  unfold relaxes
  by_cases hskip : (le.beforeGate c).forceCanSkip "force" c.raw c.args.pins = true
  · rw [hskip, if_neg (by decide)]
    exact if_pos hskip
  · rw [Bool.not_eq_true] at hskip
    rw [hskip, if_pos (by decide)]
    exact if_neg (by rw [← Bool.not_eq_true] at hskip; exact hskip)

omit [RuneCase] in
theorem beforeGate_frame (le : LayoutEngine F) (c : ForceCall F) :
    (le.beforeGate c).positions = le.positions ∧ (le.beforeGate c).frozen = le.frozen
      ∧ (le.beforeGate c).sig = le.sig ∧ (le.beforeGate c).pins = le.pins := by
  have htrack : ∀ {t}, le.trackBurst "force" c.raw = t → t.1.positions = le.positions
      ∧ t.1.frozen = le.frozen ∧ t.1.sig = le.sig ∧ t.1.pins = le.pins := by
    intro t ht
    rw [← ht]
    unfold trackBurst
    dsimp only
    split
    · split <;> exact ⟨rfl, rfl, rfl, rfl⟩
    · split <;> exact ⟨rfl, rfl, rfl, rfl⟩
  unfold beforeGate
  dsimp only
  split <;> exact htrack rfl

theorem forceStep_frozen (hf : le.frozen = ∅) (c : ForceCall F) : (le.forceStep c).frozen = ∅ := by
  rw [forceStep_eq hf]
  split
  · exact (stepForce_frozen ..).trans ((beforeGate_frame le c).2.1.trans hf)
  · exact (beforeGate_frame le c).2.1.trans hf

theorem forceRun_frozen (rng : Nat → F) (calls : List (ForceCall F)) :
    (forceRun rng calls).frozen = ∅ :=
  Run.invariant (P := fun le : LayoutEngine F => le.frozen = ∅) rfl
    (fun _ c hf _ => forceStep_frozen hf c) (Run.guarded_true _ calls)

/-- One call at the end of a run. -/
theorem forceRun_step (rng : Nat → F) (done : List (ForceCall F)) (c : ForceCall F) :
    forceRun rng (done ++ [c])
      = if (forceRun rng done).relaxes c then (forceRun rng done).relaxed c
        else (forceRun rng done).beforeGate c := by
  rw [forceRun_concat, forceStep_eq (forceRun_frozen rng done)]

end Steps

end LayoutEngine

end Etherchimp
