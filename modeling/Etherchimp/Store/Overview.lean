import Etherchimp.Store.Query

/-!
# The timeline overview

The series under the timeline bar: the flow buckets of a capture summed into steps of a
width the page asks for, and the first and the last bucket.
-/

namespace Etherchimp

/-- One point of the timeline sparkline. -/
structure OverviewPoint where
  t : Int
  packets : Nat
  bytes : Nat
  deriving DecidableEq

namespace DB

/--
`SELECT (bucket_ts / ?) * ?, SUM(packets), SUM(bytes) ... GROUP BY 1`; a division in SQL
truncates.
-/
def overviewRows (db : DB) (captureID stepSec : Int) : KeyedMap Int BucketRow :=
  Tally.collect sumRow
    ((db.flowBuckets.entries.filter fun e => e.1.captureID = captureID).map fun e =>
      (e.1.ts.tdiv stepSec * stepSec, e.2))

/-- The series by time, and the bounds of the capture's buckets. -/
def timelineOverview (db : DB) (captureID stepSec : Int) : List OverviewPoint × Int × Int :=
  let stepSec := if stepSec ≤ 0 then 1 else stepSec
  let pts := (db.overviewRows captureID stepSec).entries.map fun e =>
    { t := e.1, packets := e.2.packets, bytes := e.2.bytes : OverviewPoint }
  (pts.insertionSort fun a b => a.t ≤ b.t, db.bucketBounds captureID)

end DB

end Etherchimp
