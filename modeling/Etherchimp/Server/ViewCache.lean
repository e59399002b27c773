import Etherchimp.Server.Client

/-!
# One view for equal configurations

Clients that see the live graph share a view when their configurations have the same
key. The key is text: the scalar fields and then every name that is switched on in
the three sets, with a bar before each.
-/

namespace Etherchimp

/-- The names that are switched on, in order. -/
def trueKeys (m : KeyedMap String Bool) : List String :=
  ((m.entries.filter fun e => e.2).map fun e => e.1).insertionSort (· ≤ ·)

/-- Write the names that are switched on, each after a bar. -/
def writeSortedKeys (b : String) (m : KeyedMap String Bool) : String :=
  (trueKeys m).foldl (fun b k => b ++ "|" ++ k) b

/-- The key a view is shared under. -/
def viewConfigKey (cfg : ViewConfig) : String :=
  let b := cfg.layoutMode ++ "|" ++ toString cfg.maxNodes ++ "|" ++ toString cfg.maxEdges ++ "|"
    ++ toString cfg.aggregateThreshold ++ "|" ++ toString cfg.expandBudget ++ "|"
    ++ cfg.focusCIDR ++ "|" ++ cfg.zoomBand
  writeSortedKeys (writeSortedKeys (writeSortedKeys b cfg.hidden) cfg.expandedSubnets) cfg.fullExpand

/-- A name is in the set of names switched on. -/
theorem mem_trueKeys {m : KeyedMap String Bool} {k : String} :
    k ∈ trueKeys m ↔ m.lookup k = some true := by
  rw [trueKeys, List.mem_insertionSort, List.mem_map, ← KeyedMap.mem_entries_iff]
  constructor
  · intro ⟨e, he, hk⟩
    obtain ⟨hmem, hon⟩ := List.mem_filter.mp he
    obtain ⟨key, on⟩ := e
    subst hk
    exact hon ▸ hmem
  · exact fun h => ⟨⟨k, true⟩, List.mem_filter.mpr ⟨h, rfl⟩, rfl⟩

theorem trueKeys_nodup (m : KeyedMap String Bool) : (trueKeys m).Nodup := by
  rw [trueKeys, (List.perm_insertionSort (· ≤ ·) _).nodup_iff]
  exact (List.Sublist.map _ List.filter_sublist).nodup m.nodupKeys

/-- The written names depend on the set alone. -/
theorem trueKeys_congr {a b : KeyedMap String Bool}
    (h : ∀ k, a.lookup k = some true ↔ b.lookup k = some true) : trueKeys a = trueKeys b := by
  refine List.Perm.eq_of_pairwise' (r := (· ≤ ·)) (List.pairwise_insertionSort _ _)
    (List.pairwise_insertionSort _ _) ?_
  refine (List.perm_ext_iff_of_nodup (trueKeys_nodup a) (trueKeys_nodup b)).mpr fun k => ?_
  rw [mem_trueKeys, mem_trueKeys, h]

end Etherchimp
