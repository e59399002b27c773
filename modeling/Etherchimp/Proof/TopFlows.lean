import Etherchimp.Lib.TopK
import Etherchimp.Server.Tick

/-!
# The flows a tick animates

Of the flows drained at a tick only the busiest are sent. One pass that keeps a short
sorted list stands in for sorting them all; flows as busy as each other stay in the
order they were drained in.
-/

namespace Etherchimp

theorem insertFlow_eq (k : Nat) (top : List TrafficFlow) (f : TrafficFlow) :
    insertFlow k top f = TopK.push TrafficFlow.packets k top f := rfl

/-- **The pass keeps what a full stable sort would**; a list within the cap passes as it is. -/
theorem topKFlows_eq_sort (flows : List TrafficFlow) (k : Nat) :
    topKFlows flows k
      = if k < flows.length then (flows.mergeSort fun f g => g.packets ≤ f.packets).take k
        else flows := by
  unfold topKFlows
  by_cases hk : k < flows.length
  · rw [if_neg (by omega), if_pos hk]
    have hpush : insertFlow k = TopK.push TrafficFlow.packets k := by
      funext top f
      exact insertFlow_eq k top f
    rw [hpush]
    exact TopK.foldl_push k flows
  · rw [if_pos (by omega), if_neg hk]

end Etherchimp
