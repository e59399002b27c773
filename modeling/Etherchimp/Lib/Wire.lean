import Mathlib

/-!
# Byte buffers written and read at offsets

An encoder fills a buffer of a size computed beforehand, and a decoder reads at
running offsets. Both fail out of range, so an encoder that returns a buffer made
no bad write and a decoder that returns a value made no bad read.

The two facts a format needs: a write at the end of what is written so far appends,
and a read where a piece stands returns the piece.
-/

namespace Wire

abbrev Bytes := List UInt8

/-! ## Little-endian words -/

/-- The low `w` bytes of a number, lowest first. -/
def le : Nat → Nat → Bytes
  | 0, _ => []
  | w + 1, n => UInt8.ofNat (n % 256) :: le w (n / 256)

def ofLE : Bytes → Nat
  | [] => 0
  | b :: bytes => b.toNat + 256 * ofLE bytes

@[simp] theorem le_length (w n : Nat) : (le w n).length = w := by
  induction w generalizing n with
  | zero => rfl
  | succ w ih => rw [le, List.length_cons, ih]

/-- A number that fits is read back; a larger one loses its high bytes. -/
theorem ofLE_le (w n : Nat) : ofLE (le w n) = n % 256 ^ w := by
  induction w generalizing n with
  | zero => rw [le, ofLE, Nat.pow_zero, Nat.mod_one]
  | succ w ih =>
    rw [le, ofLE, ih, UInt8.toNat_ofNat', Nat.mod_mod, Nat.pow_succ', Nat.mod_mul]

theorem ofLE_le_of_lt {w n : Nat} (h : n < 256 ^ w) : ofLE (le w n) = n := by
  rw [ofLE_le, Nat.mod_eq_of_lt h]

/-! ## Buffers -/

/-- Overwrite the bytes from an offset on. -/
def write (buf : Bytes) (off : Nat) (bytes : Bytes) : Option Bytes :=
  if off + bytes.length ≤ buf.length then
    some (buf.take off ++ bytes ++ buf.drop (off + bytes.length))
  else none

/-- Overwrite as many bytes as fit from an offset on, and say how many. -/
def copy (buf : Bytes) (off : Nat) (bytes : Bytes) : Option (Bytes × Nat) :=
  let n := min (buf.length - off) bytes.length
  if off ≤ buf.length then (write buf off (bytes.take n)).map fun buf => (buf, n) else none

/-- Read a number of bytes from an offset on. -/
def read (buf : Bytes) (off n : Nat) : Option Bytes :=
  if off + n ≤ buf.length then some ((buf.drop off).take n) else none

/-- Read one byte. -/
def byte (buf : Bytes) (off : Nat) : Option UInt8 := (read buf off 1).bind List.head?

section Append

variable {done bytes rest : Bytes} {off : Nat}

/-- Writing where the written part ends appends to it. -/
theorem write_append (hoff : off = done.length) (hfits : bytes.length ≤ rest.length) :
    write (done ++ rest) off bytes = some (done ++ bytes ++ rest.drop bytes.length) := by
  subst hoff
  unfold write
  rw [if_pos (by rw [List.length_append]; omega), List.take_left', ← List.drop_drop, List.drop_left']
  · rfl
  · rfl

/-- A copy that fits is a write. -/
theorem copy_append (hoff : off = done.length) (hfits : bytes.length ≤ rest.length) :
    copy (done ++ rest) off bytes
      = some (done ++ bytes ++ rest.drop bytes.length, bytes.length) := by
  have hlen : (done ++ rest).length - off = rest.length := by
    rw [List.length_append]; omega
  unfold copy
  dsimp only
  rw [hlen, Nat.min_eq_right hfits, List.take_length, if_pos (by rw [List.length_append]; omega),
    write_append hoff hfits]
  rfl

/-- Reading where a piece stands returns the piece. -/
theorem read_append {n : Nat} (hoff : off = done.length) (hn : n = bytes.length) :
    read (done ++ bytes ++ rest) off n = some bytes := by
  subst hoff hn
  unfold read
  rw [if_pos (by simp only [List.length_append]; omega), List.append_assoc, List.drop_left',
    List.take_left']
  · rfl
  · rfl

theorem byte_append {b : UInt8} (hoff : off = done.length) :
    byte (done ++ [b] ++ rest) off = some b := by
  unfold byte
  rw [@read_append done [b] rest off 1 hoff rfl]
  rfl

/-- Rows written one after the other append their records. -/
theorem write_rows {α : Type} {put : Bytes × Nat → α → Option (Bytes × Nat)} {record : α → Bytes}
    (hput : ∀ (done rest : Bytes) (x : α), (record x).length ≤ rest.length →
      put (done ++ rest, done.length) x
        = some (done ++ record x ++ rest.drop (record x).length, (done ++ record x).length))
    (l : List α) (done rest : Bytes) (hfits : (l.map record).flatten.length ≤ rest.length) :
    l.foldlM put (done ++ rest, done.length)
      = some (done ++ (l.map record).flatten ++ rest.drop (l.map record).flatten.length,
        (done ++ (l.map record).flatten).length) := by
  induction l generalizing done rest with
  | nil => simp
  | cons x l ih =>
    rw [List.map_cons, List.flatten_cons, List.length_append] at hfits
    rw [List.foldlM_cons, hput done rest x (by omega), Option.bind_eq_bind, Option.bind_some, ih]
    · rw [List.map_cons, List.flatten_cons, List.drop_drop, @List.length_append _ (record x),
        List.append_assoc done]
    · rw [List.length_drop]
      omega

end Append

/-! ## Loops over rows -/

/-- A loop over the indices of a list is one over its elements. -/
theorem foldlM_getElem? {α σ : Type} (f : σ → α → Option σ) (l : List α) (s : σ) :
    (List.range l.length).foldlM (fun s i => l[i]?.bind (f s)) s = l.foldlM f s := by
  induction l generalizing s with
  | nil => rfl
  | cons x l ih =>
    rw [List.length_cons, List.range_succ_eq_map, List.foldlM_cons, List.foldlM_cons]
    congr 1
    funext s
    rw [List.foldlM_map]
    exact ih s

end Wire
