import Etherchimp.Server.Client

/-!
# The page's text decoder

One `TextDecoder` with its defaults reads every id of a binary frame. It drops a byte
order mark in front of the text. Text that is not UTF-8 is read as nothing here; no id
encoded by the server is such text.
-/

namespace Etherchimp

def byteOrderMark : Char := '\ufeff'

/-- Drop a byte order mark in front. -/
def dropMark (s : String) : String :=
  if s.toList.head? = some byteOrderMark then String.ofList s.toList.tail else s

def decodeText (bytes : Wire.Bytes) : Option String :=
  (String.fromUTF8? ⟨bytes.toArray⟩).map dropMark

/-- The text begins with a byte order mark. -/
def Marked (s : String) : Prop := s.toList.head? = some byteOrderMark

instance (s : String) : Decidable (Marked s) := inferInstanceAs (Decidable (_ = _))

theorem dropMark_eq_iff (s : String) : dropMark s = s ↔ ¬ Marked s := by
  unfold dropMark Marked
  split
  · rename_i h
    refine ⟨fun heq => ?_, fun hne => absurd h hne⟩
    have hlen := congrArg (fun s => s.toList.length) heq
    obtain ⟨l, hl⟩ := List.head?_eq_some_iff.mp h
    simp [hl] at hlen
  · rename_i h
    exact ⟨fun _ => h, fun _ => rfl⟩

theorem fromUTF8_utf8 (s : String) : String.fromUTF8? ⟨(utf8 s).toArray⟩ = some s := by
  unfold utf8
  rw [Array.toArray_toList]
  unfold String.fromUTF8?
  rw [dif_pos s.isValidUTF8]
  rfl

/-- What the decoder makes of an encoded text. -/
theorem decodeText_utf8 (s : String) : decodeText (utf8 s) = some (dropMark s) := by
  unfold decodeText
  rw [fromUTF8_utf8]
  rfl

end Etherchimp
