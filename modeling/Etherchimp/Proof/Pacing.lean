import Etherchimp.Server.Pacing
import Etherchimp.Lib.Dwell
import Etherchimp.Lib.Run

/-!
# The pace never outruns the load

A pacer serves a sequence of ticks, each with a smoothed cost and a time. Its timer is
set exactly while the cost has been in a lower band, and then every tick since the one
that set it was: a tick that is not clears the timer, and so does every change of the
interval. So a step down has a past of two seconds behind it.
-/

namespace Etherchimp

namespace TickPacer

/-- A tick, by its smoothed cost and its time. -/
structure Call where
  ema : Int
  now : Int
  deriving DecidableEq

def step (p : TickPacer) (c : Call) : TickPacer := p.next c.ema c.now

/-- A pacer after a sequence of ticks. -/
def after (p : TickPacer) (calls : List Call) : TickPacer := Run.exec step p calls

theorem after_concat (p : TickPacer) (done : List Call) (c : Call) :
    p.after (done ++ [c]) = (p.after done).step c := Run.exec_concat ..

/-! ## One tick -/

@[simp] theorem set_interval (p : TickPacer) (i : Int) : (p.set i).interval = i := by
  unfold set
  dsimp only
  by_cases h : i = p.interval
  · rw [if_neg (not_not.mpr h), h]
  · rw [if_pos h]

/-- What a tick does to the interval and the timer. -/
inductive Paces (p : TickPacer) (c : Call) (p' : TickPacer) : Prop
  | rises (h : p.interval < pacingBand c.ema) (interval : p'.interval = pacingBand c.ema)
      (low : p'.lowSince = 0)
  | keeps (h : p.interval = pacingBand c.ema) (interval : p'.interval = p.interval)
      (low : p'.lowSince = 0)
  | starts (h : pacingBand c.ema < p.interval) (interval : p'.interval = p.interval)
      (low : p'.lowSince = c.now)
  | waits (h : pacingBand c.ema < p.interval) (hset : p.lowSince ≠ 0)
      (interval : p'.interval = p.interval) (low : p'.lowSince = p.lowSince)
  | falls (h : pacingBand c.ema < p.interval) (hset : p.lowSince ≠ 0)
      (hlong : p.lowSince + pacingHysteresis ≤ c.now) (interval : p'.interval = pacingBand c.ema)
      (low : p'.lowSince = 0)

theorem paces (p : TickPacer) (c : Call) : Paces p c (p.step c) := by
  have hpos : 0 < pacingHysteresis := by decide
  unfold step next
  dsimp only
  rcases lt_trichotomy p.interval (pacingBand c.ema) with hlow | heq | hhigh
  · rw [if_pos hlow]
    exact .rises hlow (set_interval ..) rfl
  · rw [if_neg (by omega), if_neg (by omega)]
    exact .keeps heq rfl rfl
  · rw [if_neg (by omega), if_pos hhigh]
    by_cases hset : p.lowSince = 0
    · -- a timer set at this tick has not run yet
      rw [if_pos hset, if_neg (by dsimp only; omega)]
      exact .starts hhigh rfl rfl
    · rw [if_neg hset]
      by_cases hlong : pacingHysteresis ≤ c.now - p.lowSince
      · rw [if_pos hlong]
        exact .falls hhigh hset (by omega) (set_interval ..) rfl
      · rw [if_neg hlong]
        exact .waits hhigh hset rfl rfl

/-! ## Sequences of ticks -/

/-- A tick whose band lies below the interval in force, which is `interval`. -/
def LowBand (interval : Int) (tick : TickPacer × Call) : Prop :=
  tick.1.interval = interval ∧ pacingBand tick.2.ema < interval

/-- The timer remembers since when the band has been below the interval. -/
def Timed (p : TickPacer) (ticks : List (TickPacer × Call)) : Prop :=
  p.lowSince ≠ 0 → Dwell.Since (fun tick => tick.2.now) (LowBand p.interval) p.lowSince ticks

theorem Timed.step {p : TickPacer} {ticks : List (TickPacer × Call)} (h : p.Timed ticks)
    (c : Call) : (p.step c).Timed (ticks ++ [(p, c)]) := by
  intro hset
  cases p.paces c with
  | rises _ _ hlow => exact (hset hlow).elim
  | keeps _ _ hlow => exact (hset hlow).elim
  | falls _ _ _ _ hlow => exact (hset hlow).elim
  | starts hband hinterval hlow =>
    rw [hinterval, hlow]
    exact Dwell.Since.start ⟨rfl, hband⟩
  | waits hband hbefore hinterval hlow =>
    rw [hinterval, hlow]
    exact (h hbefore).concat ⟨rfl, hband⟩

theorem timed_after (interval : Int) (calls : List Call) :
    ((TickPacer.mk interval 0).after calls).Timed (Run.taken step ⟨interval, 0⟩ calls) := by
  induction calls using List.reverseRecOn with
  | nil => exact fun hset => (hset rfl).elim
  | append_singleton done c ih =>
    rw [after_concat, Run.taken_concat]
    exact ih.step c

/--
**Pacing never runs faster than the load allows.** The interval is at least what the
tick's cost calls for, it rises exactly when the band lies above it, and when it falls, it
falls to the band, after two seconds in which every tick's band lay below it.
-/
theorem next_paced (interval : Int) (done : List Call) (c : Call) :
    let p := (TickPacer.mk interval 0).after done
    let p' := (TickPacer.mk interval 0).after (done ++ [c])
    pacingBand c.ema ≤ p'.interval
    ∧ (p.interval < p'.interval ↔ p.interval < pacingBand c.ema)
    ∧ (p'.interval < p.interval → p'.interval = pacingBand c.ema
        ∧ Dwell.Lasted (fun tick => tick.2.now) (LowBand p.interval) pacingHysteresis c.now
            (Run.taken step ⟨interval, 0⟩ (done ++ [c]))) := by
  dsimp only
  have htimed := timed_after interval done
  rw [after_concat, Run.taken_concat]
  set p := (TickPacer.mk interval 0).after done
  cases p.paces c with
  | rises hband hinterval => exact ⟨by omega, by omega, by omega⟩
  | keeps hband hinterval => exact ⟨by omega, by omega, by omega⟩
  | starts hband hinterval => exact ⟨by omega, by omega, by omega⟩
  | waits hband _ hinterval => exact ⟨by omega, by omega, by omega⟩
  | falls hband hset hlong hinterval =>
    refine ⟨by omega, by omega, fun _ => ⟨hinterval, p.lowSince, ?_, hlong⟩⟩
    exact (htimed hset).concat ⟨rfl, hband⟩

end TickPacer

end Etherchimp
