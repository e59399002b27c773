import Etherchimp.Browser.WireText
import Etherchimp.Proof.Replica

/-!
# Positions over two channels

The position of a node travels with the style delta that lists it and in the binary
position frame. The frame compares with the position the client was last sent by a
frame or a full snapshot; a style delta does not move that baseline, but what it
carries is the current position, so a node left out by the frame is shown where the
baseline says and where the view says: the two are equal.

The encoder sizes its buffer in one pass and fills it in another. `encodePositions_eq`
says what it holds, and that no write is out of range.
-/

namespace Etherchimp

variable {F : Type}

/-! ## The wire format -/

section Wire

variable [Float64 F]

/-- One record: `[u16 idLen][id][f32 x][f32 y]`. -/
def record (n : ViewNode F) : Wire.Bytes :=
  Wire.le 2 (utf8 n.id).length ++ utf8 n.id ++ Wire.le 4 (Float64.float32bits n.x).toNat
    ++ Wire.le 4 (Float64.float32bits n.y).toNat

theorem record_length (n : ViewNode F) : (record n).length = 2 + (utf8 n.id).length + 8 := by
  simp only [record, List.length_append, Wire.le_length]

/-- Filling in one record appends it to what is written. -/
theorem putPosition_append {done rest : Wire.Bytes} {n : ViewNode F}
    (hfits : (record n).length ≤ rest.length) :
    putPosition (done ++ rest, done.length) n
      = some (done ++ record n ++ rest.drop (record n).length, (done ++ record n).length) := by
  rw [record_length] at hfits ⊢
  unfold putPosition
  simp only [Option.bind_eq_bind]
  rw [Wire.write_append rfl (by rw [Wire.le_length]; omega), Option.bind_some, Wire.le_length,
    Wire.copy_append (by rw [List.length_append, Wire.le_length])
      (by rw [List.length_drop]; omega), Option.bind_some]
  dsimp only
  rw [Wire.write_append (by simp only [List.length_append, Wire.le_length])
      (by simp only [List.length_drop, Wire.le_length]; omega), Option.bind_some, Wire.le_length,
    Wire.write_append (by simp only [List.length_append, Wire.le_length])
      (by simp only [List.length_drop, Wire.le_length]; omega), Option.bind_some]
  simp only [record, List.drop_drop, List.append_assoc, List.length_append, Wire.le_length,
    Option.pure_def, Option.some.injEq, Prod.mk.injEq]
  exact ⟨trivial, by omega⟩

theorem putPosition_foldlM (moved : List (ViewNode F)) (done rest : Wire.Bytes)
    (hsize : rest.length = (moved.map record).flatten.length) :
    moved.foldlM putPosition (done ++ rest, done.length)
      = some (done ++ (moved.map record).flatten, (done ++ (moved.map record).flatten).length) := by
  induction moved generalizing done rest with
  | nil =>
    rw [List.eq_nil_of_length_eq_zero hsize]
    simp
  | cons n moved ih =>
    rw [List.map_cons, List.flatten_cons, List.length_append] at hsize
    rw [List.foldlM_cons, putPosition_append (by omega), Option.bind_eq_bind, Option.bind_some, ih]
    · rw [List.map_cons, List.flatten_cons, List.append_assoc]
    · rw [List.length_drop]
      omega

/-- **The frame of the moved nodes**: no write is out of range, and every byte is written. -/
theorem encodePositions_eq (moved : List (ViewNode F)) :
    encodePositions moved = some ([1] ++ Wire.le 2 moved.length ++ (moved.map record).flatten) := by
  have hsize : ∀ (l : List (ViewNode F)) (k : Nat),
      l.foldl (fun size n => size + (2 + (utf8 n.id).length + 8)) k
        = k + (l.map record).flatten.length := by
    intro l
    induction l with
    | nil => exact fun k => rfl
    | cons n l ih =>
      intro k
      rw [List.foldl_cons, ih, List.map_cons, List.flatten_cons, List.length_append, record_length]
      omega
  unfold encodePositions
  simp only [hsize, Option.bind_eq_bind]
  generalize hk : (moved.map record).flatten.length = k
  have htype : Wire.write (List.replicate (3 + k) 0) 0 [1]
      = some ([1] ++ (List.replicate (3 + k) 0).drop 1) :=
    @Wire.write_append [] [1] _ 0 rfl (by rw [List.length_replicate, List.length_singleton]; omega)
  have hcount : Wire.write ([1] ++ (List.replicate (3 + k) 0).drop 1) 1 (Wire.le 2 moved.length)
      = some ([1] ++ Wire.le 2 moved.length ++ ((List.replicate (3 + k) 0).drop 1).drop 2) :=
    Wire.write_append rfl (by rw [List.length_drop, List.length_replicate, Wire.le_length]; omega)
  have hrecords := putPosition_foldlM moved ([1] ++ Wire.le 2 moved.length)
    (((List.replicate (3 + k) 0).drop 1).drop 2)
    (by rw [List.length_drop, List.length_drop, List.length_replicate, hk]; omega)
  rw [htype, Option.bind_some, hcount, Option.bind_some]
  rw [List.length_append, Wire.le_length, List.length_singleton] at hrecords
  rw [hrecords]
  rfl

/-! ## Reading a frame -/

/-- Read one record at the offset. -/
def readPosition (buf : Wire.Bytes) (s : Nat × List (String × UInt32 × UInt32)) :
    Option (Nat × List (String × UInt32 × UInt32)) := do
  let (off, records) := s
  let idLen ← Wire.read buf off 2
  let off := off + 2
  let id ← Wire.read buf off (Wire.ofLE idLen)
  let id ← decodeText id
  let off := off + Wire.ofLE idLen
  let x ← Wire.read buf off 4
  let off := off + 4
  let y ← Wire.read buf off 4
  let off := off + 4
  return (off, records ++ [(id, UInt32.ofNat (Wire.ofLE x), UInt32.ofNat (Wire.ofLE y))])

def readPositions (buf : Wire.Bytes) : Nat → Nat × List (String × UInt32 × UInt32) →
    Option (Nat × List (String × UInt32 × UInt32))
  | 0, s => some s
  | n + 1, s => (readPosition buf s).bind (readPositions buf n)

/-- Read a position frame: the records, and the offset after the last one. -/
def applyPositionFrame (buf : Wire.Bytes) : Option (Nat × List (String × UInt32 × UInt32)) := do
  let type ← Wire.read buf 0 1
  if type ≠ [1] then none
  else
    let count ← Wire.read buf 1 2
    readPositions buf (Wire.ofLE count) (3, [])

/-- What the record of a node reads as. -/
def recordOf (n : ViewNode F) : String × UInt32 × UInt32 :=
  (dropMark n.id, Float64.float32bits n.x, Float64.float32bits n.y)

theorem ofLE_bits (b : UInt32) : UInt32.ofNat (Wire.ofLE (Wire.le 4 b.toNat)) = b := by
  rw [Wire.ofLE_le_of_lt b.toNat_lt, UInt32.ofNat_toNat]

/-- A record is read back, wherever it stands. -/
theorem readPosition_record {front back : Wire.Bytes} {n : ViewNode F}
    (records : List (String × UInt32 × UInt32)) (hid : (utf8 n.id).length < 65536) :
    readPosition (front ++ record n ++ back) (front.length, records)
      = some ((front ++ record n).length, records ++ [recordOf n]) := by
  generalize hL : Wire.le 2 (utf8 n.id).length = L
  generalize hX : Wire.le 4 (Float64.float32bits n.x).toNat = X
  generalize hY : Wire.le 4 (Float64.float32bits n.y).toNat = Y
  have hlen : L.length = 2 ∧ X.length = 4 ∧ Y.length = 4 := by
    rw [← hL, ← hX, ← hY, Wire.le_length, Wire.le_length, Wire.le_length]
    exact ⟨rfl, rfl, rfl⟩
  obtain ⟨hLl, hXl, hYl⟩ := hlen
  have hrecord : record n = L ++ utf8 n.id ++ X ++ Y := by rw [record, hL, hX, hY]
  have hvalue : Wire.ofLE L = (utf8 n.id).length := by
    rw [← hL]
    exact Wire.ofLE_le_of_lt hid
  -- the four pieces, each where the reader looks for it
  have hreadL : Wire.read (front ++ record n ++ back) front.length 2 = some L := by
    rw [hrecord, show front ++ (L ++ utf8 n.id ++ X ++ Y) ++ back
      = front ++ L ++ (utf8 n.id ++ X ++ Y ++ back) by simp only [List.append_assoc]]
    exact Wire.read_append rfl hLl.symm
  have hreadI : Wire.read (front ++ record n ++ back) (front.length + 2) (utf8 n.id).length
      = some (utf8 n.id) := by
    rw [hrecord, show front ++ (L ++ utf8 n.id ++ X ++ Y) ++ back
      = (front ++ L) ++ utf8 n.id ++ (X ++ Y ++ back) by simp only [List.append_assoc]]
    exact Wire.read_append (by rw [List.length_append, hLl]) rfl
  have hreadX : Wire.read (front ++ record n ++ back) (front.length + 2 + (utf8 n.id).length) 4
      = some X := by
    rw [hrecord, show front ++ (L ++ utf8 n.id ++ X ++ Y) ++ back
      = (front ++ L ++ utf8 n.id) ++ X ++ (Y ++ back) by simp only [List.append_assoc]]
    exact Wire.read_append (by simp only [List.length_append, hLl]) hXl.symm
  have hreadY : Wire.read (front ++ record n ++ back) (front.length + 2 + (utf8 n.id).length + 4) 4
      = some Y := by
    rw [hrecord, show front ++ (L ++ utf8 n.id ++ X ++ Y) ++ back
      = (front ++ L ++ utf8 n.id ++ X) ++ Y ++ back by simp only [List.append_assoc]]
    exact Wire.read_append (by simp only [List.length_append, hLl, hXl]) hYl.symm
  unfold readPosition
  simp only [Option.bind_eq_bind]
  rw [hreadL, Option.bind_some, hvalue, hreadI, Option.bind_some, decodeText_utf8, Option.bind_some,
    hreadX, Option.bind_some, hreadY, Option.bind_some, ← hX, ← hY, ofLE_bits, ofLE_bits,
    List.length_append, record_length, show front.length + (2 + (utf8 n.id).length + 8)
      = front.length + 2 + (utf8 n.id).length + 4 + 4 by omega]
  rfl

theorem readPositions_records (moved : List (ViewNode F)) (front : Wire.Bytes)
    (records : List (String × UInt32 × UInt32))
    (hid : ∀ n ∈ moved, (utf8 n.id).length < 65536) :
    readPositions (front ++ (moved.map record).flatten) moved.length (front.length, records)
      = some ((front ++ (moved.map record).flatten).length, records ++ moved.map recordOf) := by
  induction moved generalizing front records with
  | nil => simp [readPositions]
  | cons n moved ih =>
    have hn := hid n (List.mem_cons_self ..)
    rw [List.length_cons, readPositions, List.map_cons, List.flatten_cons, ← List.append_assoc,
      readPosition_record records hn, Option.bind_some,
      ih (front ++ record n) _ fun n' hn' => hid n' (List.mem_cons_of_mem _ hn')]
    rw [List.map_cons, List.append_assoc records, List.singleton_append]

/-- **A frame decodes to the moved nodes, with no byte left over.** -/
theorem applyPositionFrame_encode {moved : List (ViewNode F)} {buf : Wire.Bytes}
    (hb : encodePositions moved = some buf) (hlen : moved.length < 65536)
    (hid : ∀ n ∈ moved, (utf8 n.id).length < 65536) :
    applyPositionFrame buf = some (buf.length, moved.map recordOf) := by
  rw [encodePositions_eq, Option.some.injEq] at hb
  subst hb
  have htype : Wire.read ([1] ++ Wire.le 2 moved.length ++ (moved.map record).flatten) 0 1
      = some [1] := by
    rw [List.append_assoc]
    exact @Wire.read_append [] [1] _ 0 1 rfl rfl
  have hcount : Wire.read ([1] ++ Wire.le 2 moved.length ++ (moved.map record).flatten) 1 2
      = some (Wire.le 2 moved.length) := Wire.read_append rfl (Wire.le_length ..).symm
  have hrecords := readPositions_records moved ([1] ++ Wire.le 2 moved.length) [] hid
  rw [List.length_append, Wire.le_length, List.length_singleton] at hrecords
  unfold applyPositionFrame
  simp only [Option.bind_eq_bind]
  rw [htype, Option.bind_some, if_neg (by simp), hcount, Option.bind_some, Wire.ofLE_le_of_lt hlen,
    hrecords, List.nil_append]

end Wire

/-! ## The mirror -/

/-- A coordinate as the client got it: a number in a delta, or the bits of a frame. -/
inductive Coord (F : Type)
  | json (x : F)
  | frame (bits : UInt32)

abbrev PosMirror (F : Type) := KeyedMap String (Coord F × Coord F)

/-- What the IEEE comparison owes: it is symmetric and transitive, NaN being equal to nothing. -/
class LawfulFloat64 (F : Type) [Float64 F] : Prop where
  eq_symm : ∀ x y : F, Float64.eq x y = true → Float64.eq y x = true
  eq_trans : ∀ x y z : F, Float64.eq x y = true → Float64.eq y z = true → Float64.eq x z = true

instance : LawfulFloat64 Int where
  eq_symm _ _ h := decide_eq_true (of_decide_eq_true h).symm
  eq_trans _ _ _ h h' := decide_eq_true ((of_decide_eq_true h).trans (of_decide_eq_true h'))

section Coordinates

variable [Float64 F]

/-- The same number, or equal ones. -/
def SameNumber (x y : F) : Prop := x = y ∨ Float64.eq x y = true

/-- The coordinate as a `float32`. -/
def Coord.bits : Coord F → UInt32
  | .json x => Float64.float32bits x
  | .frame bits => bits

/-- Up to the conversion, the coordinate is the number. -/
def Coord.Shows (c : Coord F) (x : F) : Prop :=
  ∃ x', c.bits = Float64.float32bits x' ∧ SameNumber x' x

def ShowsPos (c : Coord F × Coord F) (p : F × F) : Prop := c.1.Shows p.1 ∧ c.2.Shows p.2

def SamePos (p q : F × F) : Prop := SameNumber p.1 q.1 ∧ SameNumber p.2 q.2

theorem SamePos.refl (p : F × F) : SamePos p p := ⟨Or.inl rfl, Or.inl rfl⟩

theorem of_not_movedFrom {p q : F × F} (h : movedFrom (some p) q = false) : SamePos p q := by
  unfold movedFrom at h
  rw [Bool.or_eq_false_iff, Bool.not_eq_false', Bool.not_eq_false'] at h
  exact ⟨Or.inr h.1, Or.inr h.2⟩

theorem ShowsPos.json (p : F × F) : ShowsPos (.json p.1, .json p.2) p :=
  ⟨⟨p.1, rfl, Or.inl rfl⟩, ⟨p.2, rfl, Or.inl rfl⟩⟩

theorem ShowsPos.frame (p : F × F) :
    ShowsPos (.frame (Float64.float32bits p.1), .frame (Float64.float32bits p.2)) p :=
  ⟨⟨p.1, rfl, Or.inl rfl⟩, ⟨p.2, rfl, Or.inl rfl⟩⟩

variable [LawfulFloat64 F]

theorem SameNumber.symm {x y : F} (h : SameNumber x y) : SameNumber y x :=
  h.imp Eq.symm (LawfulFloat64.eq_symm x y)

theorem SameNumber.trans {x y z : F} (h : SameNumber x y) (h' : SameNumber y z) : SameNumber x z := by
  rcases h with rfl | h
  · exact h'
  · rcases h' with rfl | h'
    · exact Or.inr h
    · exact Or.inr (LawfulFloat64.eq_trans x y z h h')

theorem SamePos.symm {p q : F × F} (h : SamePos p q) : SamePos q p := ⟨h.1.symm, h.2.symm⟩

theorem ShowsPos.same {c : Coord F × Coord F} {p q : F × F} (h : ShowsPos c p) (hs : SamePos p q) :
    ShowsPos c q := by
  obtain ⟨⟨x, hx, hxs⟩, ⟨y, hy, hys⟩⟩ := h
  exact ⟨⟨x, hx, hxs.trans hs.1⟩, ⟨y, hy, hys.trans hs.2⟩⟩

end Coordinates

section Mirror

variable [Float64 F]

/-- Take the positions of the listed nodes, and drop the removed ones. -/
def PosMirror.receiveDelta (m : PosMirror F) (d : ViewDelta F) : PosMirror F :=
  Delta.receive ViewNode.id (fun n => (.json n.x, .json n.y)) m (d.nodes, d.removedNodes)

/-- Take the positions a frame lists. -/
def PosMirror.receiveFrame (m : PosMirror F) (buf : Wire.Bytes) : PosMirror F :=
  match applyPositionFrame buf with
  | none => m
  | some (_, records) =>
      Delta.upsert Prod.fst (fun r => (.frame r.2.1, .frame r.2.2)) m records

/-- The position frame of a tick: it is built after the delta. -/
def posFrame (s : Client F × PosMirror F) (t : Tick F) : Option (Option Wire.Bytes) × Client F :=
  (s.1.buildDelta t.view t.flows t.full).2.buildPosFrame t.view t.full

/-- The mirror once the delta of the tick is applied. -/
def posAfterDelta (s : Client F × PosMirror F) (t : Tick F) : PosMirror F :=
  match (s.1.buildDelta t.view t.flows t.full).1 with
  | none => s.2
  | some d => s.2.receiveDelta d

def posTick (s : Client F × PosMirror F) (t : Tick F) : Client F × PosMirror F :=
  ((posFrame s t).2,
    match (posFrame s t).1 with
    | some (some buf) => (posAfterDelta s t).receiveFrame buf
    | _ => posAfterDelta s t)

/-- The frame is written in range and decodes to its end. -/
def FrameDecodes (frame : Option (Option Wire.Bytes)) : Prop :=
  ∀ f, frame = some f → ∃ buf records, f = some buf ∧ applyPositionFrame buf = some (buf.length, records)

/-- The nodes that moved from where the client was last told, and what it is told now. -/
def movedNodes (lastPos : KeyedMap String (F × F)) (view : ViewSnapshot F) :
    List (ViewNode F) × KeyedMap String (F × F) :=
  Delta.refresh ViewNode.id ViewNode.pos movedFrom lastPos view.nodes

/-- Every node of the view is shown where the view has it. -/
def ShowsView (m : PosMirror F) (view : ViewSnapshot F) : Prop :=
  ∀ n ∈ view.nodes, ∃ c, m.lookup n.id = some c ∧ ShowsPos c n.pos

/-- What the wire format can carry. -/
structure Framable (view : ViewSnapshot F) : Prop where
  distinct : (view.nodes.map ViewNode.id).Nodup
  count : view.nodes.length < 65536
  ids : ∀ n ∈ view.nodes, (utf8 n.id).length < 65536

/-- No id begins with a byte order mark. -/
def Unmarked (view : ViewSnapshot F) : Prop := ∀ n ∈ view.nodes, ¬ Marked n.id

/--
The invariant. For every node compared last: the mirror shows the baseline, and the
baseline is where the node was.
-/
structure PosSynced (s : Client F × PosMirror F) : Prop where
  fresh : s.1.lastPos = none → s.1.lastNodes.entries = []
  shown : ∀ lastPos, s.1.lastPos = some lastPos → ∀ id n, s.1.lastNodes.lookup id = some n →
    ∃ p c, lastPos.lookup id = some p ∧ s.2.lookup id = some c ∧ ShowsPos c p ∧ SamePos p n.pos

/-- The mirror after the delta of a tick, node by node. -/
theorem posAfterDelta_lookup (s : Client F × PosMirror F) (t : Tick F)
    (hnd : (t.view.nodes.map ViewNode.id).Nodup) {n : ViewNode F} (hn : n ∈ t.view.nodes) :
    (posAfterDelta s t).lookup n.id
      = if Delta.ships ViewNode.id nodeRenderEqual t.full s.1.lastNodes n
        then some (.json n.x, .json n.y) else s.2.lookup n.id := by
  obtain ⟨-, hmsg⟩ := buildDelta_spec s.1 t.view t.flows t.full
  have hreceive : (Delta.receive ViewNode.id (fun n : ViewNode F => (Coord.json n.x, Coord.json n.y))
      s.2 ((s.1.diffNodes t.full t.view).changed, (s.1.diffNodes t.full t.view).removed)).lookup n.id
      = if Delta.ships ViewNode.id nodeRenderEqual t.full s.1.lastNodes n
        then some (.json n.x, .json n.y) else s.2.lookup n.id := Delta.receive_diff hnd s.2 hn
  rw [← hreceive]
  unfold posAfterDelta
  cases hd : (s.1.buildDelta t.view t.flows t.full).1 with
  | none =>
    rw [hd] at hmsg
    rw [hmsg.nodes, hmsg.removedNodes]
    rfl
  | some d =>
    rw [hd] at hmsg
    dsimp only
    rw [PosMirror.receiveDelta, hmsg.nodes, hmsg.removedNodes]

/-- The mirror after a frame that decodes, node by node. -/
theorem receiveFrame_lookup {moved : List (ViewNode F)} {buf : Wire.Bytes} (m : PosMirror F)
    (hdec : applyPositionFrame buf = some (buf.length, moved.map recordOf))
    (hnd : (moved.map ViewNode.id).Nodup) (hmark : ∀ n ∈ moved, ¬ Marked n.id) :
    (∀ n ∈ moved, (m.receiveFrame buf).lookup n.id
        = some (.frame (Float64.float32bits n.x), .frame (Float64.float32bits n.y)))
      ∧ ∀ id ∉ moved.map ViewNode.id, (m.receiveFrame buf).lookup id = m.lookup id := by
  have hid : ∀ n ∈ moved, (recordOf n).1 = n.id := fun n hn =>
    (dropMark_eq_iff n.id).mpr (hmark n hn)
  have hids : (moved.map recordOf).map Prod.fst = moved.map ViewNode.id := by
    rw [List.map_map]
    exact List.map_congr_left hid
  unfold PosMirror.receiveFrame
  rw [hdec]
  dsimp only
  constructor
  · intro n hn
    rw [← hid n hn]
    exact Delta.upsert_lookup_of_mem (x := recordOf n) (hids ▸ hnd) (List.mem_map_of_mem hn)
  · intro id hid
    exact Delta.upsert_lookup_of_notMem (hids ▸ hid)

theorem buildPosFrame_keeps (c : Client F) (view : ViewSnapshot F) (full : Bool) :
    (c.buildPosFrame view full).2.lastNodes = c.lastNodes := by
  unfold Client.buildPosFrame
  dsimp only
  repeat' split
  all_goals rfl

variable [LawfulFloat64 F]

/--
**One tick**: its frame decodes, the mirror shows the view, and the invariant holds
again.
-/
theorem PosSynced.tick {s : Client F × PosMirror F} {t : Tick F} (hv : Framable t.view)
    (hmark : Unmarked t.view) (h : PosSynced s) :
    FrameDecodes (posFrame s t).1 ∧ ShowsView (posTick s t).2 t.view ∧ PosSynced (posTick s t) := by
  obtain ⟨hclient, -⟩ := buildDelta_spec s.1 t.view t.flows t.full
  have hlast : Delta.Holds ViewNode.id t.view.nodes (posTick s t).1.lastNodes := by
    have hkeep : (posTick s t).1.lastNodes = (s.1.diffNodes t.full t.view).last := by
      show (posFrame s t).2.lastNodes = _
      unfold posFrame
      rw [buildPosFrame_keeps, hclient]
    rw [hkeep]
    exact Delta.diff_last hv.distinct
  have hdelta := fun n hn => @posAfterDelta_lookup _ _ s t hv.distinct n hn
  -- it is enough to find, for every node of the view, what is recorded and what is shown
  have hfinish : ∀ lastPos, (posTick s t).1.lastPos = some lastPos →
      (∀ n ∈ t.view.nodes, ∃ p c, lastPos.lookup n.id = some p
        ∧ (posTick s t).2.lookup n.id = some c ∧ ShowsPos c p ∧ SamePos p n.pos) →
      ShowsView (posTick s t).2 t.view ∧ PosSynced (posTick s t) := by
    intro lastPos hl hall
    refine ⟨fun n hn => ?_, fun hnone => ?_, fun lastPos' hl' id n hn => ?_⟩
    · obtain ⟨p, c, -, hc, hshow, hsame⟩ := hall n hn
      exact ⟨c, hc, hshow.same hsame⟩
    · rw [hl] at hnone
      cases hnone
    · rw [hl, Option.some.injEq] at hl'
      subst hl'
      obtain ⟨hin, rfl⟩ := (hlast id n).mp hn
      exact hall n hin
  by_cases hreset : s.1.lastPos = none ∨ t.full = true
  · -- everything was listed, and the view is the new baseline
    have hframe : posFrame s t = (none, { (s.1.buildDelta t.view t.flows t.full).2 with
        lastPos := some (Delta.upsert ViewNode.id ViewNode.pos ∅ t.view.nodes) }) := by
      unfold posFrame Client.buildPosFrame
      rw [hclient]
      dsimp only
      cases hl : s.1.lastPos with
      | none => rfl
      | some lastPos =>
        dsimp only
        rw [if_pos (hreset.resolve_left (by rw [hl]; nofun))]
    have hlisted : ∀ n ∈ t.view.nodes, (posTick s t).2.lookup n.id = some (.json n.x, .json n.y) := by
      intro n hn
      unfold posTick
      rw [hframe]
      dsimp only
      rw [hdelta n hn, if_pos]
      unfold Delta.ships
      rcases hreset with hnone | hfull
      · have hempty : s.1.lastNodes.lookup n.id = none := AList.lookup_eq_none.mpr fun hk => by
          rw [AList.mem_keys, AList.keys, h.fresh hnone] at hk
          cases hk
        rw [hempty, Option.any_none, Bool.not_false, Bool.or_true]
      · rw [hfull, Bool.true_or]
    refine ⟨?_, hfinish _ (by unfold posTick; rw [hframe]) fun n hn => ?_⟩
    · rw [hframe]
      intro f hf
      cases hf
    · exact ⟨n.pos, _, Delta.upsert_lookup_of_mem hv.distinct hn, hlisted n hn, ShowsPos.json n.pos,
        SamePos.refl _⟩
  · rw [not_or, Bool.not_eq_true] at hreset
    obtain ⟨lastPos, hl⟩ := Option.ne_none_iff_exists'.mp hreset.1
    have hframe : posFrame s t
        = (if (movedNodes lastPos t.view).1 = [] then none
            else some (encodePositions (movedNodes lastPos t.view).1),
          { (s.1.buildDelta t.view t.flows t.full).2 with
            lastPos := some (movedNodes lastPos t.view).2 }) := by
      unfold posFrame Client.buildPosFrame
      rw [hclient]
      dsimp only
      rw [hl]
      dsimp only
      rw [if_neg (by rw [hreset.2]; nofun)]
      unfold movedNodes
      split <;> rfl
    have hmoved : (movedNodes lastPos t.view).1
        = t.view.nodes.filter fun n => movedFrom (lastPos.lookup n.id) n.pos :=
      Delta.refresh_shipped hv.distinct
    generalize hlist : (movedNodes lastPos t.view).1 = moved at hmoved hframe
    have hsub : moved.Sublist t.view.nodes := hmoved ▸ List.filter_sublist
    obtain ⟨buf, hbuf⟩ : ∃ buf, encodePositions moved = some buf := ⟨_, encodePositions_eq moved⟩
    have hdec : applyPositionFrame buf = some (buf.length, moved.map recordOf) :=
      applyPositionFrame_encode hbuf (Nat.lt_of_le_of_lt hsub.length_le hv.count)
        fun n hn => hv.ids n (hsub.subset hn)
    have hafter : ∀ n ∈ t.view.nodes, (posTick s t).2.lookup n.id
        = if movedFrom (lastPos.lookup n.id) n.pos
          then some (.frame (Float64.float32bits n.x), .frame (Float64.float32bits n.y))
          else if Delta.ships ViewNode.id nodeRenderEqual t.full s.1.lastNodes n
            then some (.json n.x, .json n.y) else s.2.lookup n.id := by
      intro n hn
      rw [← hdelta n hn]
      unfold posTick
      rw [hframe]
      by_cases hnil : moved = []
      · rw [if_pos hnil, if_neg]
        rw [hmoved] at hnil
        exact List.filter_eq_nil_iff.mp hnil n hn
      · rw [if_neg hnil, hbuf]
        dsimp only
        obtain ⟨hin, hout⟩ := receiveFrame_lookup (posAfterDelta s t) hdec
          (hv.distinct.sublist (hsub.map ViewNode.id)) fun n hn => hmark n (hsub.subset hn)
        split
        · rename_i hm
          exact hin n (hmoved ▸ List.mem_filter.mpr ⟨hn, hm⟩)
        · rename_i hm
          refine hout n.id fun hk => hm ?_
          obtain ⟨n', hn', he⟩ := List.mem_map.mp hk
          rw [List.inj_on_of_nodup_map hv.distinct (hsub.subset hn') hn he, hmoved] at hn'
          exact (List.mem_filter.mp hn').2
    refine ⟨?_, hfinish (movedNodes lastPos t.view).2 (by unfold posTick; rw [hframe]) fun n hn => ?_⟩
    · rw [hframe]
      intro f hf
      split at hf
      · cases hf
      · rw [Option.some.injEq] at hf
        exact ⟨buf, _, hf ▸ hbuf, hdec⟩
    · have hrecorded : (movedNodes lastPos t.view).2.lookup n.id
          = if movedFrom (lastPos.lookup n.id) n.pos then some n.pos else lastPos.lookup n.id :=
        Delta.refresh_recorded hv.distinct hn
      rw [hrecorded, hafter n hn]
      by_cases hm : movedFrom (lastPos.lookup n.id) n.pos = true
      · rw [if_pos hm, if_pos hm]
        exact ⟨n.pos, _, rfl, rfl, ShowsPos.frame n.pos, SamePos.refl _⟩
      · rw [if_neg hm, if_neg hm]
        rw [Bool.not_eq_true] at hm
        obtain ⟨p, hp⟩ : ∃ p, lastPos.lookup n.id = some p := by
          cases hp : lastPos.lookup n.id with
          | none => rw [hp] at hm; cases hm
          | some p => exact ⟨p, rfl⟩
        rw [hp] at hm
        have hsame := of_not_movedFrom hm
        by_cases hc : Delta.ships ViewNode.id nodeRenderEqual t.full s.1.lastNodes n = true
        · -- listed in the delta, and still where the baseline has it
          rw [if_pos hc]
          exact ⟨p, _, hp, rfl, (ShowsPos.json n.pos).same hsame.symm, hsame⟩
        · rw [if_neg hc]
          obtain ⟨prev, hprev, -⟩ := Delta.of_ships_eq_false (Bool.not_eq_true _ ▸ hc)
          obtain ⟨p', c, hp', hc', hshow, -⟩ := h.shown lastPos hl n.id prev hprev
          rw [hp, Option.some.injEq] at hp'
          exact ⟨p, c, hp, hc', hp' ▸ hshow, hsame⟩

/-! ## Runs -/

/--
**After every tick the mirror shows every node of the view where the view has it**, and
the frame of the tick was written in range and decodes to its end.
-/
theorem posStream_replicates (cfg : ViewConfig) (ticks : List (Tick F)) (t : Tick F)
    (hv : ∀ t' ∈ ticks ++ [t], Framable t'.view) (hmark : ∀ t' ∈ ticks ++ [t], Unmarked t'.view) :
    FrameDecodes (posFrame (Run.exec posTick ({ cfg := cfg }, ∅) ticks) t).1
      ∧ ShowsView (Run.exec posTick ({ cfg := cfg }, ∅) (ticks ++ [t])).2 t.view := by
  have hinit : PosSynced (({ cfg := cfg }, ∅) : Client F × PosMirror F) :=
    ⟨fun _ => rfl, fun _ h => (by cases h)⟩
  have hframes : Run.Guarded posTick (fun _ t => Framable t.view ∧ Unmarked t.view)
      ({ cfg := cfg }, ∅) ticks :=
    Run.guarded_of_forall _ fun t' ht' => ⟨hv t' (by simp [ht']), hmark t' (by simp [ht'])⟩
  have hrun : PosSynced (Run.exec posTick ({ cfg := cfg }, ∅) ticks) :=
    Run.invariant hinit (fun _ _ hs ht => (hs.tick ht.1 ht.2).2.2) hframes
  obtain ⟨hdec, hshow, -⟩ := hrun.tick (hv t (by simp)) (hmark t (by simp))
  rw [Run.exec_concat]
  exact ⟨hdec, hshow⟩

end Mirror

/-- A node that moves and is restyled, one that leaves, and one that comes back. -/
def movingTicks : List (Tick Int) :=
  [{ view := { nodes := [{ id := "10.0.0.5", value := 1, x := 0, y := 0 },
                         { id := "10.0.0.6", value := 1, x := 5, y := 0 }], edges := [] }
     full := true },
   { view := { nodes := [{ id := "10.0.0.5", label := "nas", value := 1, x := 3, y := 4 }]
               edges := [] } }]

instance (view : ViewSnapshot F) : Decidable (Framable view) :=
  decidable_of_iff ((view.nodes.map ViewNode.id).Nodup ∧ view.nodes.length < 65536
      ∧ ∀ n ∈ view.nodes, (utf8 n.id).length < 65536)
    ⟨fun h => ⟨h.1, h.2.1, h.2.2⟩, fun h => ⟨h.distinct, h.count, h.ids⟩⟩

instance (view : ViewSnapshot F) : Decidable (Unmarked view) :=
  inferInstanceAs (Decidable (∀ n ∈ view.nodes, _))

theorem posStream_replicates_moving : ShowsView (Run.exec posTick
      (({ cfg := {} }, ∅) : Client Int × PosMirror Int)
      (movingTicks ++ [{ view := (smallTicks.head (by decide)).view }])).2
    (smallTicks.head (by decide)).view :=
  (posStream_replicates {} movingTicks { view := (smallTicks.head (by decide)).view }
    (by decide) (by decide)).2

/-- A node whose name begins with a byte order mark, and then it moves. -/
def markedTicks : List (Tick Int) :=
  [{ view := { nodes := [{ id := "\ufeffnas", value := 1, x := 0, y := 0 }], edges := [] }
     full := true },
   { view := { nodes := [{ id := "\ufeffnas", value := 1, x := 3, y := 4 }], edges := [] } }]

/-- The frame moves a node of another name, and the client shows this one where it was. -/
theorem posStream_stale : (∀ t ∈ markedTicks, Framable t.view)
    ∧ ¬ ∀ t ∈ markedTicks.getLast?, ShowsView (Run.exec posTick
      (({ cfg := {} }, ∅) : Client Int × PosMirror Int) markedTicks).2 t.view := by
  refine ⟨by decide, fun h => ?_⟩
  obtain ⟨c, hc, hshow, -⟩ := h _ rfl { id := "\ufeffnas", value := 1, x := 3, y := 4 } (by simp)
  have hzero : (Run.exec posTick (({ cfg := {} }, ∅) : Client Int × PosMirror Int)
      markedTicks).2.lookup "\ufeffnas" = some (.json 0, .json 0) := by rfl
  rw [hzero] at hc
  cases hc
  obtain ⟨x, hx, hsame⟩ := hshow
  have hthree : x = 3 := hsame.elim (fun h => h) of_decide_eq_true
  subst hthree
  revert hx
  decide

end Etherchimp
