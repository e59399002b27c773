import Etherchimp.Graph.BuildView

/-!
# The store of the overrides

What users changed on nodes: names, colours, icons, groups and pinned positions. The
store is a map in memory and a JSON file. Every change rewrites the whole file: the
text goes to a temporary file first, and that is renamed over the old one. Nobody is
told when a flush fails, and the temporary file of a failed one stays where it is.

A process that dies in the middle of a change leaves on disk what a failed flush
leaves there, and its memory is gone.
-/

namespace Etherchimp

variable {F : Type}

/-- A node's customization as it is stored; the view makes no use of the name of a group. -/
structure StoredOverride (F : Type) extends NodeOverride F where
  group : String := ""

/-- No customization at all. -/
def StoredOverride.empty (o : StoredOverride F) : Bool :=
  o.label == "" && o.color == "" && o.icon == "" && o.group == "" && !o.isGroup
    && o.pinnedX.isNone && o.pinnedY.isNone

/-- The overrides in memory. -/
abbrev OverrideTable (F : Type) := KeyedMap String (StoredOverride F)

namespace OverrideTable

/-- Upsert an override; an empty one is dropped. -/
def set (byID : OverrideTable F) (id : String) (o : StoredOverride F) : OverrideTable F :=
  if o.empty then byID.erase id else byID.insert id o

def delete (byID : OverrideTable F) (id : String) : OverrideTable F := byID.erase id

/-- What a view looks up. -/
def shown (byID : OverrideTable F) : OverrideStore F := byID.mapVal StoredOverride.toNodeOverride

/-- A position counts as pinned when both coordinates are. -/
def pins (byID : OverrideTable F) : KeyedMap String (Vec F) :=
  byID.entries.foldl (fun pins e =>
    match e.2.pinnedX, e.2.pinnedY with
    | some x, some y => pins.insert e.1 ⟨x, y⟩
    | _, _ => pins) ∅

end OverrideTable

/-! ## The file -/

/-- What a file holds: a table, or a text that is no JSON document. -/
inductive FileText (F : Type)
  | json (byID : OverrideTable F)
  | torn

/-- Reading the file back; whatever does not decode leaves the map empty. -/
def loadOverrides : Option (FileText F) → OverrideTable F
  | some (.json byID) => byID
  | some .torn | none => ∅

/-- The store, and the two files beside it. -/
structure OverrideFile (F : Type) where
  byID : OverrideTable F
  path : String
  file : Option (FileText F)
  tmp : Option (FileText F)

/-- Where a flush stops. -/
inductive FlushFault
  /-- The table does not encode, or the temporary file cannot be created. -/
  | notStarted
  /-- The text is not written to its end. -/
  | cutShort
  | notRenamed

namespace OverrideFile

def newOverrideStore (path : String) (file tmp : Option (FileText F)) : OverrideFile F where
  byID := loadOverrides file
  path := path
  file := file
  tmp := tmp

def flushLocked (s : OverrideFile F) (fault : Option FlushFault) : OverrideFile F :=
  if s.path = "" then s
  else
    match fault with
    | some .notStarted => s
    | some .cutShort => { s with tmp := some .torn }
    | some .notRenamed => { s with tmp := some (.json s.byID) }
    | none => { s with file := some (.json s.byID), tmp := none }

/-- A change of the table. -/
inductive Change (F : Type)
  | set (id : String) (o : StoredOverride F)
  | delete (id : String)

def Change.apply (byID : OverrideTable F) : Change F → OverrideTable F
  | .set id o => byID.set id o
  | .delete id => byID.delete id

inductive Event (F : Type)
  | change (c : Change F) (fault : Option FlushFault)
  /-- The process ends, in whatever way, and the store is opened again. -/
  | restart

def step (s : OverrideFile F) : Event F → OverrideFile F
  | .change c fault => { s with byID := c.apply s.byID }.flushLocked fault
  | .restart => newOverrideStore s.path s.file s.tmp

end OverrideFile

end Etherchimp
