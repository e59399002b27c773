import Mathlib.Data.Int.Notation

/-!
# The pace of the hub

The hub ticks at one of three cadences, by the smoothed cost of its ticks. A burst slows
it down at once; it speeds up again only when the cost has been in a lower band for two
seconds. Times and durations are nanoseconds, and 0 is the time that is not set.
-/

namespace Etherchimp

def tickIntervalFast : Int := 100 * 1000000
def tickIntervalBusy : Int := 200 * 1000000
def tickIntervalMax : Int := 500 * 1000000

def tickEMAMedium : Int := 50 * 1000000
def tickEMAHigh : Int := 80 * 1000000

/-- How long the cost must stay in a lower band before the cadence steps down. -/
def pacingHysteresis : Int := 2 * 1000000000

/-- The cadence a tick cost calls for. -/
def pacingBand (ema : Int) : Int :=
  if tickEMAHigh < ema then tickIntervalMax
  else if tickEMAMedium ≤ ema then tickIntervalBusy
  else tickIntervalFast

structure TickPacer where
  interval : Int := tickIntervalFast
  /-- When the cost first sat below the current band; 0 when it does not. -/
  lowSince : Int := 0
  deriving DecidableEq

namespace TickPacer

def set (p : TickPacer) (interval : Int) : TickPacer :=
  let p := if interval ≠ p.interval then { p with interval := interval } else p
  { p with lowSince := 0 }

/-- The pacer after a tick of smoothed cost `ema`; its interval is the next cadence. -/
def next (p : TickPacer) (ema now : Int) : TickPacer :=
  let target := pacingBand ema
  if p.interval < target then p.set target
  else if target < p.interval then
    let p := if p.lowSince = 0 then { p with lowSince := now } else p
    if pacingHysteresis ≤ now - p.lowSince then p.set target else p
  else { p with lowSince := 0 }

end TickPacer

end Etherchimp
