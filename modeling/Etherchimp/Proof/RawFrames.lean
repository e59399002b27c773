import Etherchimp.Browser.RawFrame
import Etherchimp.Proof.RawTopology
import Etherchimp.Server.RawStream

/-!
# Raw frames, written and read

The server computes the size of a frame in one pass and lays out its bytes in another;
the page reads them back at running offsets. `encodeRawFrame_eq` says what bytes a frame
is, and `applyRawTopologyFrame_eq` what the page reads from them.

Two things are lost on the way: a byte order mark in front of an id, and the low bits of
an index that single precision cannot hold. A frame is read as it was encoded exactly
when neither occurs in it.
-/

namespace Etherchimp

/-! ## Indices in single precision -/

/-- The number has at most 24 significant bits. -/
def Float32Exact (n : Nat) : Prop := ∃ m e, m < 2 ^ 24 ∧ n = m * 2 ^ e

theorem float32Exact_of_lt {n : Nat} (h : n < 2 ^ 24) : Float32Exact n :=
  ⟨n, 0, h, by rw [Nat.pow_zero, Nat.mul_one]⟩

/-- A number with a unit in the last place that divides it. -/
theorem float32Exact_iff_dvd (n : Nat) : Float32Exact n ↔ 2 ^ (n.log2 + 1 - 24) ∣ n := by
  constructor
  · rintro ⟨m, e, hm, hn⟩
    rcases Nat.eq_zero_or_pos n with h0 | h0
    · rw [h0]
      exact Nat.dvd_zero _
    · have hlt : n < 2 ^ (24 + e) := by
        rw [hn, Nat.pow_add]
        exact Nat.mul_lt_mul_of_pos_right hm (Nat.two_pow_pos e)
      have hlog : n.log2 < 24 + e := (Nat.log2_lt (by omega)).mpr hlt
      have hdvd : 2 ^ (n.log2 + 1 - 24) ∣ 2 ^ e := Nat.pow_dvd_pow 2 (by omega)
      exact hdvd.trans ⟨m, by rw [hn, Nat.mul_comm]⟩
  · rintro ⟨q, hq⟩
    refine ⟨q, n.log2 + 1 - 24, ?_, by rw [Nat.mul_comm]; exact hq⟩
    rcases Nat.eq_zero_or_pos n with h0 | h0
    · have hpos := Nat.two_pow_pos (n.log2 + 1 - 24)
      rcases Nat.mul_eq_zero.mp (hq.symm.trans h0) with h | h <;> omega
    · have hlt : n < 2 ^ (n.log2 + 1) := Nat.lt_log2_self
      have hsplit : (2 : Nat) ^ (n.log2 + 1) ≤ 2 ^ (n.log2 + 1 - 24) * 2 ^ 24 := by
        rw [← Nat.pow_add]
        exact Nat.pow_le_pow_right (by omega) (by omega)
      rw [hq] at hlt
      refine Nat.lt_of_mul_lt_mul_left (a := 2 ^ (n.log2 + 1 - 24)) (Nat.lt_of_lt_of_le ?_ hsplit)
      rw [← hq] at hlt ⊢
      exact hlt

theorem toFloat32_eq_iff (n : Nat) : toFloat32 n = n ↔ Float32Exact n := by
  rw [float32Exact_iff_dvd]
  unfold toFloat32
  dsimp only
  generalize hunit : 2 ^ (n.log2 + 1 - 24) = unit
  have hpos : 0 < unit := hunit ▸ Nat.two_pow_pos _
  constructor
  · intro h
    rw [← h]
    split
    · exact Nat.dvd_mul_left _ _
    · exact Nat.dvd_mul_left _ _
  · intro h
    have hmod : n % unit = 0 := Nat.mod_eq_zero_of_dvd h
    rw [hmod, if_neg (by omega)]
    exact Nat.div_mul_cancel h

/-! ## The bytes -/

def nodeRecord (n : String × UInt8 × UInt8) : Wire.Bytes :=
  Wire.le 2 (utf8 n.1).length ++ utf8 n.1 ++ [n.2.1] ++ [n.2.2]

def edgeRecord (e : UInt32 × UInt32 × UInt8) : Wire.Bytes :=
  Wire.le 4 e.1.toNat ++ Wire.le 4 e.2.1.toNat ++ [e.2.2]

theorem nodeRecord_length (n : String × UInt8 × UInt8) :
    (nodeRecord n).length = 2 + (utf8 n.1).length + 2 := by
  simp only [nodeRecord, List.length_append, Wire.le_length, List.length_singleton]

theorem edgeRecord_length (e : UInt32 × UInt32 × UInt8) : (edgeRecord e).length = 9 := by
  simp only [edgeRecord, List.length_append, Wire.le_length, List.length_singleton]

namespace RawTopology

/-- The rows of the node arrays. -/
def nodeRows (t : RawTopology) : List (String × UInt8 × UInt8) := t.ids.zip (t.tiers.zip t.flags)

def edgeRows (t : RawTopology) : List (UInt32 × UInt32 × UInt8) :=
  t.edgeA.zip (t.edgeB.zip t.edgeProto)

/-- The arrays of a kind have one length. -/
structure Parallel (t : RawTopology) : Prop where
  tiers : t.tiers.length = t.ids.length
  flags : t.flags.length = t.ids.length
  edgeB : t.edgeB.length = t.edgeA.length
  edgeProto : t.edgeProto.length = t.edgeA.length

theorem node_eq (t : RawTopology) (i : Nat) : t.node i = t.nodeRows[i]? := by
  unfold node nodeRows
  rw [List.zip, List.zip, List.getElem?_zipWith, List.getElem?_zipWith]
  cases t.ids[i]? <;> cases t.tiers[i]? <;> cases t.flags[i]? <;> rfl

theorem edge_eq (t : RawTopology) (i : Nat) : t.edge i = t.edgeRows[i]? := by
  unfold edge edgeRows
  rw [List.zip, List.zip, List.getElem?_zipWith, List.getElem?_zipWith]
  cases t.edgeA[i]? <;> cases t.edgeB[i]? <;> cases t.edgeProto[i]? <;> rfl

variable {t : RawTopology}

theorem Parallel.nodeRows_length (h : t.Parallel) : t.nodeRows.length = t.ids.length := by
  unfold nodeRows
  rw [List.length_zip, List.length_zip, h.tiers, h.flags, Nat.min_self, Nat.min_self]

theorem Parallel.edgeRows_length (h : t.Parallel) : t.edgeRows.length = t.edgeA.length := by
  unfold edgeRows
  rw [List.length_zip, List.length_zip, h.edgeB, h.edgeProto, Nat.min_self, Nat.min_self]

theorem Parallel.nodes_loop (h : t.Parallel) {σ : Type}
    (f : σ → String × UInt8 × UInt8 → Option σ) (s : σ) :
    (List.range t.ids.length).foldlM (fun s i => (t.node i).bind (f s)) s
      = t.nodeRows.foldlM f s := by
  rw [← h.nodeRows_length]
  simp only [node_eq]
  exact Wire.foldlM_getElem? f t.nodeRows s

theorem Parallel.edges_loop (h : t.Parallel) {σ : Type}
    (f : σ → UInt32 × UInt32 × UInt8 → Option σ) (s : σ) :
    (List.range t.edgeA.length).foldlM (fun s i => (t.edge i).bind (f s)) s
      = t.edgeRows.foldlM f s := by
  rw [← h.edgeRows_length]
  simp only [edge_eq]
  exact Wire.foldlM_getElem? f t.edgeRows s

theorem Parallel.ids_eq (h : t.Parallel) : t.nodeRows.map (fun n => n.1) = t.ids := by
  unfold nodeRows
  exact List.map_fst_zip (by rw [List.length_zip, h.tiers, h.flags, Nat.min_self])

theorem Parallel.tiers_eq (h : t.Parallel) : t.nodeRows.map (fun n => n.2.1) = t.tiers := by
  have hsnd : t.nodeRows.map Prod.snd = t.tiers.zip t.flags :=
    List.map_snd_zip (by rw [List.length_zip, h.tiers, h.flags, Nat.min_self])
  have hfst : (t.tiers.zip t.flags).map Prod.fst = t.tiers :=
    List.map_fst_zip (by rw [h.tiers, h.flags])
  rw [← hfst, ← hsnd, List.map_map]
  rfl

theorem Parallel.flags_eq (h : t.Parallel) : t.nodeRows.map (fun n => n.2.2) = t.flags := by
  have hsnd : t.nodeRows.map Prod.snd = t.tiers.zip t.flags :=
    List.map_snd_zip (by rw [List.length_zip, h.tiers, h.flags, Nat.min_self])
  have hflags : (t.tiers.zip t.flags).map Prod.snd = t.flags :=
    List.map_snd_zip (by rw [h.tiers, h.flags])
  rw [← hflags, ← hsnd, List.map_map]
  rfl

theorem Parallel.edgeProto_eq (h : t.Parallel) :
    t.edgeRows.map (fun e => e.2.2) = t.edgeProto := by
  have hsnd : t.edgeRows.map Prod.snd = t.edgeB.zip t.edgeProto :=
    List.map_snd_zip (by rw [List.length_zip, h.edgeB, h.edgeProto, Nat.min_self])
  have hproto : (t.edgeB.zip t.edgeProto).map Prod.snd = t.edgeProto :=
    List.map_snd_zip (by rw [h.edgeB, h.edgeProto])
  rw [← hproto, ← hsnd, List.map_map]
  rfl

end RawTopology

/-! ## Writing -/

theorem putRawNode_append {done rest : Wire.Bytes} {n : String × UInt8 × UInt8}
    (hfits : (nodeRecord n).length ≤ rest.length) :
    putRawNode (done ++ rest, done.length) n
      = some (done ++ nodeRecord n ++ rest.drop (nodeRecord n).length,
        (done ++ nodeRecord n).length) := by
  rw [nodeRecord_length] at hfits ⊢
  unfold putRawNode
  simp only [Option.bind_eq_bind]
  rw [Wire.write_append rfl (by rw [Wire.le_length]; omega), Option.bind_some, Wire.le_length,
    Wire.copy_append (by rw [List.length_append, Wire.le_length])
      (by rw [List.length_drop]; omega), Option.bind_some]
  dsimp only
  rw [Wire.write_append (by simp only [List.length_append, Wire.le_length])
      (by simp only [List.length_drop, List.length_singleton]; omega), Option.bind_some,
    Wire.write_append
      (by simp only [List.length_append, Wire.le_length, List.length_singleton])
      (by simp only [List.length_drop, List.length_singleton]; omega), Option.bind_some]
  simp only [nodeRecord, List.drop_drop, List.append_assoc, List.length_append, Wire.le_length,
    List.length_singleton, Option.pure_def, Option.some.injEq, Prod.mk.injEq]
  exact ⟨trivial, by omega⟩

theorem putRawEdge_append {done rest : Wire.Bytes} {e : UInt32 × UInt32 × UInt8}
    (hfits : (edgeRecord e).length ≤ rest.length) :
    putRawEdge (done ++ rest, done.length) e
      = some (done ++ edgeRecord e ++ rest.drop (edgeRecord e).length,
        (done ++ edgeRecord e).length) := by
  rw [edgeRecord_length] at hfits ⊢
  unfold putRawEdge
  simp only [Option.bind_eq_bind]
  rw [Wire.write_append rfl (by rw [Wire.le_length]; omega), Option.bind_some, Wire.le_length,
    Wire.write_append (by rw [List.length_append, Wire.le_length])
      (by rw [Wire.le_length, List.length_drop]; omega), Option.bind_some, Wire.le_length,
    Wire.write_append (by simp only [List.length_append, Wire.le_length])
      (by simp only [List.length_drop, List.length_singleton]; omega), Option.bind_some]
  simp only [edgeRecord, List.drop_drop, List.append_assoc, List.length_append, Wire.le_length,
    List.length_singleton, Option.pure_def]

/-- The bytes of a frame. -/
def frameBytes (t : RawTopology) : Wire.Bytes :=
  [2] ++ Wire.le 4 t.ids.length ++ (t.nodeRows.map nodeRecord).flatten
    ++ Wire.le 4 t.edgeA.length ++ (t.edgeRows.map edgeRecord).flatten

theorem nodeRecords_length (l : List (String × UInt8 × UInt8)) (k : Nat) :
    (l.map fun n => n.1).foldl (fun size id => size + (2 + (utf8 id).length + 2)) k
      = k + (l.map nodeRecord).flatten.length := by
  induction l generalizing k with
  | nil => rfl
  | cons n l ih =>
    rw [List.map_cons, List.foldl_cons, ih, List.map_cons, List.flatten_cons, List.length_append,
      nodeRecord_length]
    omega

theorem edgeRecords_length (l : List (UInt32 × UInt32 × UInt8)) :
    (l.map edgeRecord).flatten.length = l.length * 9 := by
  induction l with
  | nil => rfl
  | cons e l ih =>
    rw [List.map_cons, List.flatten_cons, List.length_append, edgeRecord_length, ih,
      List.length_cons]
    omega

theorem rawFrameSize_eq {t : RawTopology} (h : t.Parallel) :
    rawFrameSize t = (frameBytes t).length := by
  unfold rawFrameSize frameBytes
  rw [← h.ids_eq, nodeRecords_length, h.ids_eq]
  simp only [List.length_append, Wire.le_length, List.length_singleton, edgeRecords_length,
    h.edgeRows_length]
  omega

/-- **What a frame is**: no write is out of range, and every byte of the size is written. -/
theorem encodeRawFrame_eq {t : RawTopology} (h : t.Parallel) :
    encodeRawFrame t = some (frameBytes t) := by
  have hsize := rawFrameSize_eq h
  unfold encodeRawFrame
  rw [hsize]
  generalize hN : (t.nodeRows.map nodeRecord).flatten = N
  generalize hE : (t.edgeRows.map edgeRecord).flatten = E
  have hlen : (frameBytes t).length = 5 + N.length + 4 + E.length := by
    unfold frameBytes
    rw [hN, hE]
    simp only [List.length_append, Wire.le_length, List.length_singleton]
  rw [hlen]
  generalize hbuf : List.replicate (5 + N.length + 4 + E.length) (0 : UInt8) = buf
  have hbl : buf.length = 5 + N.length + 4 + E.length := by rw [← hbuf, List.length_replicate]
  have htype : Wire.write buf 0 [2] = some ([2] ++ buf.drop 1) :=
    @Wire.write_append [] [2] buf 0 rfl (by rw [List.length_singleton]; omega)
  have hcount : Wire.write ([2] ++ buf.drop 1) 1 (Wire.le 4 t.ids.length)
      = some ([2] ++ Wire.le 4 t.ids.length ++ (buf.drop 1).drop 4) :=
    Wire.write_append rfl (by rw [List.length_drop, Wire.le_length]; omega)
  have hnodes : (List.range t.ids.length).foldlM (fun s i => (t.node i).bind (putRawNode s))
      ([2] ++ Wire.le 4 t.ids.length ++ (buf.drop 1).drop 4, 5)
      = some ([2] ++ Wire.le 4 t.ids.length ++ N ++ ((buf.drop 1).drop 4).drop N.length,
        ([2] ++ Wire.le 4 t.ids.length ++ N).length) := by
    have hrows := Wire.write_rows (fun _ _ _ hfits => putRawNode_append hfits) t.nodeRows
      ([2] ++ Wire.le 4 t.ids.length) ((buf.drop 1).drop 4)
      (by rw [hN, List.length_drop, List.length_drop]; omega)
    rw [List.length_append, Wire.le_length, List.length_singleton, hN] at hrows
    rw [← hrows]
    exact h.nodes_loop putRawNode _
  have hmany : Wire.write ([2] ++ Wire.le 4 t.ids.length ++ N ++ ((buf.drop 1).drop 4).drop N.length)
      ([2] ++ Wire.le 4 t.ids.length ++ N).length (Wire.le 4 t.edgeA.length)
      = some ([2] ++ Wire.le 4 t.ids.length ++ N ++ Wire.le 4 t.edgeA.length
        ++ (((buf.drop 1).drop 4).drop N.length).drop 4) :=
    Wire.write_append rfl
      (by rw [List.length_drop, List.length_drop, List.length_drop, Wire.le_length]; omega)
  have hedges : (List.range t.edgeA.length).foldlM (fun s i => (t.edge i).bind (putRawEdge s))
      ([2] ++ Wire.le 4 t.ids.length ++ N ++ Wire.le 4 t.edgeA.length
        ++ (((buf.drop 1).drop 4).drop N.length).drop 4,
        ([2] ++ Wire.le 4 t.ids.length ++ N).length + 4)
      = some (frameBytes t ++ ((((buf.drop 1).drop 4).drop N.length).drop 4).drop E.length,
        (frameBytes t).length) := by
    have hrows := Wire.write_rows (fun _ _ _ hfits => putRawEdge_append hfits) t.edgeRows
      ([2] ++ Wire.le 4 t.ids.length ++ N ++ Wire.le 4 t.edgeA.length)
      ((((buf.drop 1).drop 4).drop N.length).drop 4)
      (by rw [hE]; simp only [List.length_drop]; omega)
    rw [@List.length_append _ ([2] ++ Wire.le 4 t.ids.length ++ N), Wire.le_length, hE] at hrows
    unfold frameBytes
    rw [hN, hE, ← hrows]
    exact h.edges_loop putRawEdge _
  simp only [Option.bind_eq_bind]
  rw [htype, Option.bind_some, hcount, Option.bind_some, hnodes, Option.bind_some]
  dsimp only
  rw [hmany, Option.bind_some, hedges, Option.bind_some]
  dsimp only
  rw [List.take_left']
  · rfl
  · rfl

/-! ## Reading -/

theorem readRawNode_record {front back : Wire.Bytes} {n : String × UInt8 × UInt8} (f : RawFrame)
    (hid : (utf8 n.1).length < 65536) :
    readRawNode (front ++ nodeRecord n ++ back) (front.length, f)
      = some ((front ++ nodeRecord n).length,
        { f with
          ids := f.ids ++ [dropMark n.1]
          tiers := f.tiers ++ [n.2.1]
          flags := f.flags ++ [n.2.2] }) := by
  generalize hL : Wire.le 2 (utf8 n.1).length = L
  have hLl : L.length = 2 := by rw [← hL, Wire.le_length]
  have hrecord : nodeRecord n = L ++ utf8 n.1 ++ [n.2.1] ++ [n.2.2] := by rw [nodeRecord, hL]
  have hvalue : Wire.ofLE L = (utf8 n.1).length := by
    rw [← hL]
    exact Wire.ofLE_le_of_lt hid
  -- the four pieces, each where the reader looks for it
  have hreadL : Wire.read (front ++ nodeRecord n ++ back) front.length 2 = some L := by
    rw [hrecord, show front ++ (L ++ utf8 n.1 ++ [n.2.1] ++ [n.2.2]) ++ back
      = front ++ L ++ (utf8 n.1 ++ [n.2.1] ++ [n.2.2] ++ back) by simp only [List.append_assoc]]
    exact Wire.read_append rfl hLl.symm
  have hreadI : Wire.read (front ++ nodeRecord n ++ back) (front.length + 2) (utf8 n.1).length
      = some (utf8 n.1) := by
    rw [hrecord, show front ++ (L ++ utf8 n.1 ++ [n.2.1] ++ [n.2.2]) ++ back
      = (front ++ L) ++ utf8 n.1 ++ ([n.2.1] ++ [n.2.2] ++ back) by simp only [List.append_assoc]]
    exact Wire.read_append (by rw [List.length_append, hLl]) rfl
  have hreadT : Wire.byte (front ++ nodeRecord n ++ back)
      (front.length + 2 + (utf8 n.1).length) = some n.2.1 := by
    rw [hrecord, show front ++ (L ++ utf8 n.1 ++ [n.2.1] ++ [n.2.2]) ++ back
      = (front ++ L ++ utf8 n.1) ++ [n.2.1] ++ ([n.2.2] ++ back) by simp only [List.append_assoc]]
    exact Wire.byte_append (by simp only [List.length_append, hLl])
  have hreadF : Wire.byte (front ++ nodeRecord n ++ back)
      (front.length + 2 + (utf8 n.1).length + 1) = some n.2.2 := by
    rw [hrecord, show front ++ (L ++ utf8 n.1 ++ [n.2.1] ++ [n.2.2]) ++ back
      = (front ++ L ++ utf8 n.1 ++ [n.2.1]) ++ [n.2.2] ++ back by simp only [List.append_assoc]]
    exact Wire.byte_append (by simp only [List.length_append, hLl, List.length_singleton])
  unfold readRawNode
  simp only [Option.bind_eq_bind]
  rw [hreadL, Option.bind_some, hvalue, hreadI, Option.bind_some, decodeText_utf8,
    Option.bind_some, hreadT, Option.bind_some, hreadF, Option.bind_some, List.length_append,
    nodeRecord_length, show front.length + (2 + (utf8 n.1).length + 2)
      = front.length + 2 + (utf8 n.1).length + 2 by omega]
  rfl

theorem readRawLink_record {front back : Wire.Bytes} {e : UInt32 × UInt32 × UInt8} (f : RawFrame) :
    readRawLink (front ++ edgeRecord e ++ back) (front.length, f)
      = some ((front ++ edgeRecord e).length,
        { f with
          links := f.links ++ [toFloat32 e.1.toNat, toFloat32 e.2.1.toNat]
          protoIdx := f.protoIdx ++ [e.2.2] }) := by
  have hword : ∀ a : UInt32, Wire.ofLE (Wire.le 4 a.toNat) = a.toNat := fun a =>
    Wire.ofLE_le_of_lt a.toNat_lt
  have hreadA : Wire.read (front ++ edgeRecord e ++ back) front.length 4
      = some (Wire.le 4 e.1.toNat) := by
    rw [edgeRecord, show front ++ (Wire.le 4 e.1.toNat ++ Wire.le 4 e.2.1.toNat ++ [e.2.2]) ++ back
      = front ++ Wire.le 4 e.1.toNat ++ (Wire.le 4 e.2.1.toNat ++ [e.2.2] ++ back) by
        simp only [List.append_assoc]]
    exact Wire.read_append rfl (Wire.le_length ..).symm
  have hreadB : Wire.read (front ++ edgeRecord e ++ back) (front.length + 4) 4
      = some (Wire.le 4 e.2.1.toNat) := by
    rw [edgeRecord, show front ++ (Wire.le 4 e.1.toNat ++ Wire.le 4 e.2.1.toNat ++ [e.2.2]) ++ back
      = (front ++ Wire.le 4 e.1.toNat) ++ Wire.le 4 e.2.1.toNat ++ ([e.2.2] ++ back) by
        simp only [List.append_assoc]]
    exact Wire.read_append (by rw [List.length_append, Wire.le_length]) (Wire.le_length ..).symm
  have hreadP : Wire.byte (front ++ edgeRecord e ++ back) (front.length + 8) = some e.2.2 := by
    rw [edgeRecord, show front ++ (Wire.le 4 e.1.toNat ++ Wire.le 4 e.2.1.toNat ++ [e.2.2]) ++ back
      = (front ++ Wire.le 4 e.1.toNat ++ Wire.le 4 e.2.1.toNat) ++ [e.2.2] ++ back by
        simp only [List.append_assoc]]
    exact Wire.byte_append (by simp only [List.length_append, Wire.le_length])
  unfold readRawLink
  simp only [Option.bind_eq_bind]
  rw [hreadA, Option.bind_some, hreadB, Option.bind_some, hreadP, Option.bind_some, hword, hword,
    List.length_append, edgeRecord_length]
  rfl

theorem readRawNodes {buf front back : Wire.Bytes} (l : List (String × UInt8 × UInt8))
    (hbuf : buf = front ++ (l.map nodeRecord).flatten ++ back) (f : RawFrame)
    (hid : ∀ n ∈ l, (utf8 n.1).length < 65536) :
    readTimes (readRawNode buf) l.length (front.length, f)
      = some ((front ++ (l.map nodeRecord).flatten).length,
        { f with
          ids := f.ids ++ l.map fun n => dropMark n.1
          tiers := f.tiers ++ l.map fun n => n.2.1
          flags := f.flags ++ l.map fun n => n.2.2 }) := by
  induction l generalizing front f with
  | nil => simp [readTimes]
  | cons n l ih =>
    have hone : buf = front ++ nodeRecord n ++ ((l.map nodeRecord).flatten ++ back) := by
      rw [hbuf, List.map_cons, List.flatten_cons]
      simp only [List.append_assoc]
    have hrest : buf = front ++ nodeRecord n ++ (l.map nodeRecord).flatten ++ back := by
      rw [hone]
      simp only [List.append_assoc]
    have hread := @readRawNode_record front ((l.map nodeRecord).flatten ++ back) n f
      (hid n List.mem_cons_self)
    rw [← hone] at hread
    rw [List.length_cons, readTimes, hread, Option.bind_some, ih hrest _ fun m hm => hid m (List.mem_cons_of_mem _ hm)]
    simp only [List.map_cons, List.flatten_cons, List.append_assoc, List.singleton_append]

theorem readRawLinks {buf front back : Wire.Bytes} (l : List (UInt32 × UInt32 × UInt8))
    (hbuf : buf = front ++ (l.map edgeRecord).flatten ++ back) (f : RawFrame) :
    readTimes (readRawLink buf) l.length (front.length, f)
      = some ((front ++ (l.map edgeRecord).flatten).length,
        { f with
          links := f.links ++ l.flatMap fun e => [toFloat32 e.1.toNat, toFloat32 e.2.1.toNat]
          protoIdx := f.protoIdx ++ l.map fun e => e.2.2 }) := by
  induction l generalizing front f with
  | nil => simp [readTimes]
  | cons e l ih =>
    have hone : buf = front ++ edgeRecord e ++ ((l.map edgeRecord).flatten ++ back) := by
      rw [hbuf, List.map_cons, List.flatten_cons]
      simp only [List.append_assoc]
    have hrest : buf = front ++ edgeRecord e ++ (l.map edgeRecord).flatten ++ back := by
      rw [hone]
      simp only [List.append_assoc]
    have hread := @readRawLink_record front ((l.map edgeRecord).flatten ++ back) e f
    rw [← hone] at hread
    rw [List.length_cons, readTimes, hread, Option.bind_some, ih hrest]
    simp only [List.map_cons, List.flatMap_cons, List.flatten_cons, List.append_assoc,
      List.singleton_append]

/-- What the page hands to the renderer for a topology. -/
def decoded (t : RawTopology) : RawFrame where
  ids := t.ids.map dropMark
  tiers := t.tiers
  flags := t.flags
  links := t.edgeRows.flatMap fun e => [toFloat32 e.1.toNat, toFloat32 e.2.1.toNat]
  protoIdx := t.edgeProto

/-- **What the page reads**, to the last byte of the frame. -/
theorem applyRawTopologyFrame_eq {t : RawTopology} (h : t.Parallel)
    (hid : ∀ id ∈ t.ids, (utf8 id).length < 65536) (hn : t.ids.length < 2 ^ 32)
    (hm : t.edgeA.length < 2 ^ 32) :
    applyRawTopologyFrame (frameBytes t) = some ((frameBytes t).length, decoded t) := by
  have hcount : Wire.read (frameBytes t) 1 4 = some (Wire.le 4 t.ids.length) := by
    unfold frameBytes
    rw [List.append_assoc ([2] ++ Wire.le 4 t.ids.length), List.append_assoc]
    exact Wire.read_append rfl (Wire.le_length ..).symm
  have hrows : ∀ n ∈ t.nodeRows, (utf8 n.1).length < 65536 := fun n hn =>
    hid n.1 (h.ids_eq ▸ List.mem_map_of_mem hn)
  have hnodes := @readRawNodes (frameBytes t) ([2] ++ Wire.le 4 t.ids.length)
    (Wire.le 4 t.edgeA.length ++ (t.edgeRows.map edgeRecord).flatten) t.nodeRows
    (by rw [frameBytes, List.append_assoc]) {} hrows
  have hmany : Wire.read (frameBytes t)
      ([2] ++ Wire.le 4 t.ids.length ++ (t.nodeRows.map nodeRecord).flatten).length 4
      = some (Wire.le 4 t.edgeA.length) := Wire.read_append rfl (Wire.le_length ..).symm
  have hlinks := @readRawLinks (frameBytes t) ([2] ++ Wire.le 4 t.ids.length
      ++ (t.nodeRows.map nodeRecord).flatten ++ Wire.le 4 t.edgeA.length) [] t.edgeRows
    (by rw [List.append_nil, frameBytes])
  rw [h.nodeRows_length, List.length_append, Wire.le_length, List.length_singleton] at hnodes
  rw [h.edgeRows_length, List.length_append, Wire.le_length] at hlinks
  unfold applyRawTopologyFrame
  simp only [Option.bind_eq_bind]
  rw [hcount, Option.bind_some, Wire.ofLE_le_of_lt hn, hnodes, Option.bind_some]
  dsimp only
  rw [hmany, Option.bind_some, Wire.ofLE_le_of_lt hm, hlinks]
  have hids : (t.nodeRows.map fun n => dropMark n.1) = t.ids.map dropMark := by
    rw [← h.ids_eq, List.map_map]
    rfl
  rw [hids, h.tiers_eq, h.flags_eq, h.edgeProto_eq]
  rfl

/-! ## The round trip -/

/-- The topology in the renderer's shape. -/
def RawTopology.shown (t : RawTopology) : RawFrame where
  ids := t.ids
  tiers := t.tiers
  flags := t.flags
  links := (t.edgeA.zip t.edgeB).flatMap fun e => [e.1.toNat, e.2.toNat]
  protoIdx := t.edgeProto

/-- The links are the ones sent exactly when all their indices fit single precision. -/
theorem links_eq_iff (as bs : List UInt32) (ps : List UInt8) (hb : bs.length = as.length)
    (hp : ps.length = as.length) :
    ((as.zip (bs.zip ps)).flatMap fun e => [toFloat32 e.1.toNat, toFloat32 e.2.1.toNat])
        = (as.zip bs).flatMap (fun e => [e.1.toNat, e.2.toNat])
      ↔ ∀ i ∈ as ++ bs, Float32Exact i.toNat := by
  induction as generalizing bs ps with
  | nil =>
    rw [List.eq_nil_of_length_eq_zero hb]
    simp
  | cons a as ih =>
    obtain ⟨b, bs, rfl⟩ := List.exists_cons_of_length_eq_add_one hb
    obtain ⟨p, ps, rfl⟩ := List.exists_cons_of_length_eq_add_one hp
    simp only [List.zip_cons_cons, List.flatMap_cons, List.cons_append, List.nil_append,
      List.cons.injEq, toFloat32_eq_iff]
    rw [ih bs ps (Nat.succ.inj hb) (Nat.succ.inj hp)]
    simp only [List.mem_cons, List.mem_append, forall_eq_or_imp]
    constructor
    · rintro ⟨ha, hb, hrest⟩
      refine ⟨ha, ?_⟩
      rintro i (hi | rfl | hi)
      · exact hrest i (Or.inl hi)
      · exact hb
      · exact hrest i (Or.inr hi)
    · rintro ⟨ha, hrest⟩
      exact ⟨ha, hrest b (Or.inr (Or.inl rfl)),
        fun i hi => hrest i (hi.imp_right Or.inr)⟩

/--
**When a frame decodes to what was encoded**: no id begins with a byte order mark and no
index has more bits than single precision holds.
-/
theorem rawFrame_roundTrip_iff {t : RawTopology} (h : t.Parallel)
    (hid : ∀ id ∈ t.ids, (utf8 id).length < 65536) (hn : t.ids.length < 2 ^ 24)
    (hm : t.edgeA.length < 2 ^ 32) :
    (∃ buf, encodeRawFrame t = some buf ∧ buf.length = rawFrameSize t
        ∧ applyRawTopologyFrame buf = some (buf.length, t.shown))
      ↔ (∀ id ∈ t.ids, ¬ Marked id) ∧ ∀ i ∈ t.edgeA ++ t.edgeB, Float32Exact i.toNat := by
  have hread := applyRawTopologyFrame_eq h hid (by omega) hm
  have hids : t.ids.map dropMark = t.ids ↔ ∀ id ∈ t.ids, ¬ Marked id := by
    have hmap : t.ids.map dropMark = t.ids.map id ↔ ∀ a ∈ t.ids, dropMark a = id a :=
      List.map_inj_left
    rw [List.map_id] at hmap
    exact hmap.trans (forall₂_congr fun a _ => dropMark_eq_iff a)
  have hlinks := links_eq_iff t.edgeA t.edgeB t.edgeProto h.edgeB h.edgeProto
  have hsame : decoded t = t.shown
      ↔ (∀ id ∈ t.ids, ¬ Marked id) ∧ ∀ i ∈ t.edgeA ++ t.edgeB, Float32Exact i.toNat := by
    rw [← hids, ← hlinks]
    unfold decoded RawTopology.shown RawTopology.edgeRows
    rw [RawFrame.mk.injEq]
    exact ⟨fun heq => ⟨heq.1, heq.2.2.2.1⟩, fun heq => ⟨heq.1, rfl, rfl, heq.2, rfl⟩⟩
  rw [← hsame]
  constructor
  · rintro ⟨buf, hbuf, -, hdec⟩
    rw [encodeRawFrame_eq h, Option.some.injEq] at hbuf
    subst hbuf
    rw [hread, Option.some.injEq, Prod.mk.injEq] at hdec
    exact hdec.2
  · intro heq
    exact ⟨frameBytes t, encodeRawFrame_eq h, (rawFrameSize_eq h).symm, heq ▸ hread⟩

/-- Two hosts and a link. -/
def smallTopology : RawTopology where
  ids := ["10.0.0.1", "nas"]
  tiers := [4, 3]
  flags := [0, 1]
  edgeA := [0]
  edgeB := [1]
  edgeProto := [0]
  protos := [{ name := "TCP" }]

theorem rawFrame_roundTrip_small : ∃ buf, encodeRawFrame smallTopology = some buf
    ∧ buf.length = rawFrameSize smallTopology
    ∧ applyRawTopologyFrame buf = some (buf.length, smallTopology.shown) := by
  refine (rawFrame_roundTrip_iff (t := smallTopology) ⟨rfl, rfl, rfl, rfl⟩ (by decide +kernel)
    (by decide) (by decide)).mpr ⟨by decide +kernel, fun i hi => float32Exact_of_lt ?_⟩
  have hi : i = 0 ∨ i = 1 := by simpa [smallTopology] using hi
  rcases hi with rfl | rfl
  · decide +kernel
  · decide +kernel

/-- A host whose name begins with a byte order mark. -/
def markedTopology : RawTopology where
  ids := ["\ufeffnas"]
  tiers := [0]
  flags := [0]

/-- It is shown under another name. -/
theorem rawFrame_marked : ¬ ∃ buf, encodeRawFrame markedTopology = some buf
    ∧ buf.length = rawFrameSize markedTopology
    ∧ applyRawTopologyFrame buf = some (buf.length, markedTopology.shown) := by
  rintro ⟨buf, hbuf, -, hdec⟩
  have hpar : markedTopology.Parallel := ⟨rfl, rfl, rfl, rfl⟩
  rw [encodeRawFrame_eq hpar, Option.some.injEq] at hbuf
  subst hbuf
  rw [applyRawTopologyFrame_eq hpar (by decide +kernel) (by decide) (by decide),
    Option.some.injEq, Prod.mk.injEq] at hdec
  have hids := congrArg RawFrame.ids hdec.2
  revert hids
  decide +kernel

end Etherchimp
