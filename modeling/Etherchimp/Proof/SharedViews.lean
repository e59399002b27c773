import Etherchimp.Lib.Fields
import Etherchimp.Server.Control
import Etherchimp.Server.ViewCache

/-!
# When two clients share a view they should not share

A shared view is one client's configuration shown to another, so the key has to tell
configurations apart. It does not: nothing in the text says where one set of names
ends and the next begins, and a name or a layout mode may itself contain a bar.

What the text does determine is the sequence of pieces between bars. Two
configurations are confused exactly when they have the same pieces and divide them
differently among the fields and the three sets.
-/

namespace Etherchimp

open Fields

namespace ViewConfig

/-- Everything the key is written from, in order. -/
def words (cfg : ViewConfig) : List String :=
  [cfg.layoutMode, toString cfg.maxNodes, toString cfg.maxEdges, toString cfg.aggregateThreshold,
    toString cfg.expandBudget, cfg.focusCIDR, cfg.zoomBand]
    ++ trueKeys cfg.hidden ++ trueKeys cfg.expandedSubnets ++ trueKeys cfg.fullExpand

/-- The runs between bars, in order. -/
def pieces (cfg : ViewConfig) : List (List Char) := Fields.pieces '|' (cfg.words.map String.toList)

/-- How many pieces each word has, and how many words the first two sets have. -/
def division (cfg : ViewConfig) : List Nat × Nat × Nat :=
  (cuts '|' (cfg.words.map String.toList), (trueKeys cfg.hidden).length,
    (trueKeys cfg.expandedSubnets).length)

/-- The same pieces, divided differently among the fields and sets. -/
def DividedDifferently (a b : ViewConfig) : Prop := a.pieces = b.pieces ∧ a.division ≠ b.division

/-- The same names are switched on. -/
def SameNames (a b : KeyedMap String Bool) : Prop :=
  ∀ k, a.lookup k = some true ↔ b.lookup k = some true

/-- The two configurations ask for the same view. -/
structure SameView (a b : ViewConfig) : Prop where
  layoutMode : a.layoutMode = b.layoutMode
  maxNodes : a.maxNodes = b.maxNodes
  maxEdges : a.maxEdges = b.maxEdges
  aggregateThreshold : a.aggregateThreshold = b.aggregateThreshold
  expandBudget : a.expandBudget = b.expandBudget
  focusCIDR : a.focusCIDR = b.focusCIDR
  zoomBand : a.zoomBand = b.zoomBand
  hidden : SameNames a.hidden b.hidden
  expandedSubnets : SameNames a.expandedSubnets b.expandedSubnets
  fullExpand : SameNames a.fullExpand b.fullExpand

/-! ## The key as joined words -/

theorem writeSortedKeys_toList (b : String) (m : KeyedMap String Bool) :
    (writeSortedKeys b m).toList
      = b.toList ++ ((trueKeys m).map String.toList).flatMap ('|' :: ·) := by
  unfold writeSortedKeys
  induction trueKeys m generalizing b with
  | nil => simp
  | cons k ks ih =>
      rw [List.foldl_cons, ih]
      simp

theorem viewConfigKey_toList (cfg : ViewConfig) :
    (viewConfigKey cfg).toList
      = join '|' cfg.layoutMode.toList (cfg.words.tail.map String.toList) := by
  simp [viewConfigKey, writeSortedKeys_toList, join, words]

/-- Equal keys are equal pieces. -/
theorem viewConfigKey_eq_iff {a b : ViewConfig} :
    viewConfigKey a = viewConfigKey b ↔ a.pieces = b.pieces := by
  rw [← String.toList_inj, viewConfigKey_toList, viewConfigKey_toList, join_eq_iff]
  rfl

/-! ## What the words determine -/

theorem sameNames_iff {a b : KeyedMap String Bool} : SameNames a b ↔ trueKeys a = trueKeys b := by
  refine ⟨trueKeys_congr, fun h k => ?_⟩
  rw [← mem_trueKeys, ← mem_trueKeys, h]

theorem toString_int_inj {m n : Int} (h : toString m = toString n) : m = n := Int.repr_injective h

/-- The words, with the sizes of the first two sets, are the configuration. -/
theorem sameView_of_words {a b : ViewConfig} (hw : a.words = b.words)
    (hh : (trueKeys a.hidden).length = (trueKeys b.hidden).length)
    (he : (trueKeys a.expandedSubnets).length = (trueKeys b.expandedSubnets).length) :
    SameView a b := by
  simp only [words, List.append_assoc, List.cons_append, List.nil_append, List.cons.injEq] at hw
  obtain ⟨hmode, hnodes, hedges, hthr, hbudget, hfocus, hband, hnames⟩ := hw
  obtain ⟨hhid, hrest⟩ := List.append_inj hnames hh
  obtain ⟨hexp, hfull⟩ := List.append_inj hrest he
  exact
    { layoutMode := hmode
      maxNodes := toString_int_inj hnodes
      maxEdges := toString_int_inj hedges
      aggregateThreshold := toString_int_inj hthr
      expandBudget := toString_int_inj hbudget
      focusCIDR := hfocus
      zoomBand := hband
      hidden := sameNames_iff.mpr hhid
      expandedSubnets := sameNames_iff.mpr hexp
      fullExpand := sameNames_iff.mpr hfull }

theorem SameView.words {a b : ViewConfig} (h : SameView a b) : a.words = b.words := by
  rw [ViewConfig.words, ViewConfig.words, h.layoutMode, h.maxNodes, h.maxEdges, h.aggregateThreshold,
    h.expandBudget, h.focusCIDR, h.zoomBand, sameNames_iff.mp h.hidden,
    sameNames_iff.mp h.expandedSubnets, sameNames_iff.mp h.fullExpand]

/-- The same view is divided in the same way. -/
theorem SameView.division {a b : ViewConfig} (h : SameView a b) : a.division = b.division := by
  rw [ViewConfig.division, ViewConfig.division, h.words, sameNames_iff.mp h.hidden,
    sameNames_iff.mp h.expandedSubnets]

/--
**Which configurations are confused.** Sharing is right for two configurations
unless they divide the same pieces differently.
-/
theorem viewConfigKey_shares_iff (a b : ViewConfig) :
    (viewConfigKey a = viewConfigKey b → SameView a b) ↔ ¬ DividedDifferently a b := by
  rw [viewConfigKey_eq_iff]
  constructor
  · intro h ⟨hp, hd⟩
    exact hd (h hp).division
  · intro h hp
    have hd : a.division = b.division := by
      by_contra hne
      exact h ⟨hp, hne⟩
    rw [ViewConfig.division, ViewConfig.division, Prod.mk.injEq, Prod.mk.injEq] at hd
    refine sameView_of_words ?_ hd.2.1 hd.2.2
    exact List.map_injective_iff.mpr (fun _ _ => String.toList_inj.mp) (words_eq hp hd.1)

/-- The configuration a new client has after these messages. -/
def controlled (msgs : List ControlMsg) : ViewConfig :=
  (msgs.foldl Client.applyControl ({} : Client Int)).cfg

/-- A subnet opened up to the budget, and the same subnet opened in full. -/
def openedBudgeted : ViewConfig :=
  controlled [.setFilters [], .setAggregation 300 ["10.0.0.0/24"] [] "" "mid"]

def openedFull : ViewConfig :=
  controlled [.setFilters [], .setAggregation 300 [] ["10.0.0.0/24"] "" "mid"]

/-- Two clients that opened one subnet in the two different ways share one view. -/
theorem viewConfigKey_confuses_opened :
    viewConfigKey openedBudgeted = viewConfigKey openedFull ∧ ¬ SameView openedBudgeted openedFull := by
  refine ⟨by decide, fun h => ?_⟩
  have hon : openedBudgeted.expandedSubnets.lookup "10.0.0.0/24" = some true := by decide
  have hoff : openedFull.expandedSubnets.lookup "10.0.0.0/24" = none := by decide
  have := (h.expandedSubnets "10.0.0.0/24").mp hon
  rw [hoff] at this
  cases this

end ViewConfig

end Etherchimp
