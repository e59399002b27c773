import Etherchimp.Lib.Run
import Etherchimp.Graph.Overrides

/-!
# Overrides survive in the order they were made

A restart undoes the changes since the last flush that reached its rename, all of them
and no others. A flush that fails loses nothing by itself: the next one that succeeds
writes the whole table, with the changes of the failed ones in it. What a failed flush
leaves behind is never read.
-/

namespace Etherchimp

namespace OverrideFile

variable {F : Type}

/-- The changes made so far that count: those a restart keeps, and those it would undo. -/
structure Standing (F : Type) where
  durable : List (Change F) := []
  pending : List (Change F) := []

/-- A flush that ends makes everything pending durable, a restart drops it. -/
def Standing.note (path : String) (r : Standing F) : Event F → Standing F
  | .change c fault =>
      if path ≠ "" ∧ fault.isNone then ⟨r.durable ++ r.pending ++ [c], []⟩
      else { r with pending := r.pending ++ [c] }
  | .restart => { r with pending := [] }

/-- The table after some changes to the one that was loaded at first. -/
def tableAfter (file : Option (FileText F)) (changes : List (Change F)) : OverrideTable F :=
  changes.foldl Change.apply (loadOverrides file)

theorem tableAfter_concat (file : Option (FileText F)) (changes : List (Change F)) (c : Change F) :
    tableAfter file (changes ++ [c]) = c.apply (tableAfter file changes) :=
  List.foldl_concat ..

/-- Memory holds every change that counts, the file the durable ones. -/
structure Stands (path : String) (file : Option (FileText F)) (s : OverrideFile F)
    (r : Standing F) : Prop where
  path : s.path = path
  memory : s.byID = tableAfter file (r.durable ++ r.pending)
  disk : loadOverrides s.file = tableAfter file r.durable
  /-- The program never leaves the file itself torn. -/
  whole : s.file = file ∨ s.file = some (.json (tableAfter file r.durable))

variable {path : String} {file tmp : Option (FileText F)} {s : OverrideFile F} {r : Standing F}

theorem stands_start (path : String) (file tmp : Option (FileText F)) :
    Stands path file (newOverrideStore path file tmp) {} where
  path := rfl
  memory := rfl
  disk := rfl
  whole := .inl rfl

theorem Stands.change (h : Stands path file s r) (c : Change F) (fault : Option FlushFault) :
    Stands path file (s.step (.change c fault)) (r.note path (.change c fault)) := by
  have hmem : c.apply s.byID = tableAfter file (r.durable ++ r.pending ++ [c]) := by
    rw [tableAfter_concat, h.memory]
  have hkept : ∀ tmp, Stands path file { s with byID := c.apply s.byID, tmp := tmp }
      { r with pending := r.pending ++ [c] } := fun tmp =>
    ⟨h.path, by rw [hmem, List.append_assoc], h.disk, h.whole⟩
  unfold step flushLocked Standing.note
  dsimp only
  by_cases hpath : s.path = ""
  · rw [if_pos hpath, if_neg fun hc => hc.1 (h.path ▸ hpath)]
    exact hkept s.tmp
  · rw [if_neg hpath]
    cases fault with
    | none =>
      have hflushed : path ≠ "" ∧ (none : Option FlushFault).isNone = true :=
        ⟨h.path ▸ hpath, rfl⟩
      rw [if_pos hflushed]
      exact ⟨h.path, by rw [List.append_nil]; exact hmem, hmem, .inr (by rw [hmem])⟩
    | some fault =>
      rw [if_neg fun hc => absurd hc.2 Bool.false_ne_true]
      cases fault <;> exact hkept _

theorem Stands.restart (h : Stands path file s r) :
    Stands path file (s.step .restart) (r.note path .restart) where
  path := h.path
  memory := by
    show loadOverrides s.file = tableAfter file (r.durable ++ [])
    rw [h.disk, List.append_nil]
  disk := h.disk
  whole := h.whole

theorem Stands.step (h : Stands path file s r) (e : Event F) :
    Stands path file (s.step e) (r.note path e) := by
  cases e with
  | change c fault => exact h.change c fault
  | restart => exact h.restart

theorem stands_run (path : String) (file tmp : Option (FileText F)) (l : List (Event F)) :
    Stands path file (Run.exec OverrideFile.step (newOverrideStore path file tmp) l)
      (Run.exec (Standing.note path) {} l) := by
  induction l using List.reverseRecOn with
  | nil => exact stands_start path file tmp
  | append_singleton l e ih =>
    rw [Run.exec_concat, Run.exec_concat]
    exact ih.step e

/-! ## Customizations only -/

/-- No override is stored that says nothing. -/
def Meaningful (byID : OverrideTable F) : Prop := ∀ id o, byID.lookup id = some o → o.empty = false

theorem Meaningful.erase {byID : OverrideTable F} (h : Meaningful byID) (id : String) :
    Meaningful (byID.erase id) := by
  intro a o hl
  rw [KeyedMap.lookup_erase_eq] at hl
  split at hl
  · cases hl
  · exact h a o hl

theorem Meaningful.apply {byID : OverrideTable F} (h : Meaningful byID) (c : Change F) :
    Meaningful (c.apply byID) := by
  cases c with
  | delete id => exact h.erase id
  | set id o =>
    unfold Change.apply OverrideTable.set
    dsimp only
    by_cases hempty : o.empty = true
    · rw [if_pos hempty]
      exact h.erase id
    · rw [if_neg hempty]
      intro a o' hl
      rw [KeyedMap.lookup_insert_eq] at hl
      split at hl
      · cases hl
        exact Bool.eq_false_iff.mpr hempty
      · exact h a o' hl

theorem meaningful_tableAfter (h : Meaningful (loadOverrides file)) (changes : List (Change F)) :
    Meaningful (tableAfter file changes) :=
  List.foldlRecOn changes _ h fun _ ht c _ => Meaningful.apply ht c

/--
**What a restart undoes is a suffix of the changes.** Whatever fails and whenever the
process dies, memory holds the durable changes and then the pending ones, and the file
the durable ones. It is the file of old or a whole table, never a torn text, and no
override in it is empty unless one was at first.
-/
theorem overrides_survive (path : String) (file tmp : Option (FileText F)) (l : List (Event F)) :
    let s := Run.exec OverrideFile.step (newOverrideStore path file tmp) l
    Stands path file s (Run.exec (Standing.note path) {} l)
      ∧ (Meaningful (loadOverrides file) → Meaningful s.byID ∧ Meaningful (loadOverrides s.file)) := by
  have h := stands_run path file tmp l
  refine ⟨h, fun hfile => ⟨?_, ?_⟩⟩
  · rw [h.memory]
    exact meaningful_tableAfter hfile _
  · rw [h.disk]
    exact meaningful_tableAfter hfile _

end OverrideFile

end Etherchimp
