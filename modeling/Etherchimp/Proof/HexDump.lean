import Etherchimp.Capture.Format
import Etherchimp.Proof.AddressText

/-!
# A dump keeps the bytes

The gutter shows most bytes as dots, but the hex columns keep every byte: `readHexDump`
reads them back, line by line, from the text alone. The offset is of any width, so a
reader goes by the two blanks behind it.
-/

namespace Etherchimp

/-- Two digits a byte. -/
def readPairs : List Char → List UInt8
  | hi :: lo :: rest =>
      match hexNibble hi, hexNibble lo with
      | some h, some l => UInt8.ofNat (h * 16 + l) :: readPairs rest
      | _, _ => readPairs rest
  | _ => []

/--
The bytes of one line: what stands in the columns, blanks aside. A line that does not
begin with an offset is a note and has none.
-/
def readLine (line : List Char) : List UInt8 :=
  match line.head?.bind hexNibble with
  | none => []
  | some _ => readPairs ((((line.dropWhile (· ≠ ' ')).drop 2).take 49).filter (· ≠ ' '))

/-- The bytes of some lines. -/
def readLines (chars : List Char) : List UInt8 := (chars.splitOn '\n').flatMap readLine

/-- The bytes a dump shows. -/
def readHexDump (text : String) : List UInt8 := readLines text.toList

/-- The text is whole lines, and reads as `data` whatever follows it. -/
def ReadsAs (text : String) (data : List UInt8) : Prop :=
  ∀ tail, readLines (text.toList ++ tail) = data ++ readLines tail

theorem ReadsAs.read {text : String} {data : List UInt8} (h : ReadsAs text data) :
    readHexDump text = data := by
  have hread := h []
  rw [List.append_nil, show readLines [] = [] from rfl, List.append_nil] at hread
  exact hread

theorem ReadsAs.append {text more : String} {data rest : List UInt8} (h : ReadsAs text data)
    (hmore : ReadsAs more rest) : ReadsAs (text ++ more) (data ++ rest) := by
  intro tail
  rw [String.toList_append, List.append_assoc, h, hmore, List.append_assoc]

/-- A line that does not begin with an offset reads as no bytes. -/
theorem readsAs_note {text : String} (note : List Char) (htext : text.toList = note ++ ['\n'])
    (hhead : note.head?.bind hexNibble = none) (hnl : '\n' ∉ note) : ReadsAs text [] := by
  intro tail
  have hline : readLine note = [] := by
    unfold readLine
    rw [hhead]
  unfold readLines
  rw [htext, List.append_assoc, List.singleton_append,
    List.splitOn_append_cons_self_of_not_mem hnl, List.flatMap_cons, hline]

/-! ## Digits -/

/-- A character that is a hex digit is neither a blank nor a newline. -/
theorem hexDigit_plain {c : Char} {d : Nat} (h : hexNibble c = some d) :
    c ≠ ' ' ∧ c ≠ '\n' := by
  constructor
  all_goals
    rintro rfl
    exact absurd h (by decide +revert)

theorem hexOffset_hex (i : Nat) : ∀ c ∈ hexOffset i, ∃ d, hexNibble c = some d := by
  intro c hc
  rcases List.mem_append.mp hc with hz | hd
  · rw [(List.mem_replicate.mp hz).2]
    exact ⟨0, by decide⟩
  · exact hexNibble_of_mem hd

theorem hexByte_toList (b : UInt8) : (hexByte b.toNat).toList
    = [Nat.digitChar (b.toNat / 16), Nat.digitChar (b.toNat % 16)] := by
  have hlt := b.toNat_lt
  unfold hexByte hexText
  rw [String.toList_append, String.toList_ofList, String.toList_ofList,
    Nat.toDigits_of_lt_base (by omega), Nat.toDigits_of_lt_base (by omega)]
  rfl

theorem hexByte_plain (b : UInt8) : ∀ c ∈ (hexByte b.toNat).toList, c ≠ ' ' ∧ c ≠ '\n' := by
  intro c hc
  have hlt := b.toNat_lt
  rw [hexByte_toList] at hc
  rcases List.mem_pair.mp hc with rfl | rfl
  · exact hexDigit_plain (hexNibble_digitChar _ (by omega))
  · exact hexDigit_plain (hexNibble_digitChar _ (by omega))

theorem readPairs_byte (b : UInt8) (rest : List Char) :
    readPairs ((hexByte b.toNat).toList ++ rest) = b :: readPairs rest := by
  have hlt := b.toNat_lt
  rw [hexByte_toList]
  show readPairs (_ :: _ :: rest) = _
  rw [readPairs, hexNibble_digitChar _ (by omega), hexNibble_digitChar _ (by omega)]
  dsimp only
  rw [Nat.div_add_mod' b.toNat 16, UInt8.ofNat_toNat]

/-! ## One line -/

theorem hexCell_length (row : List UInt8) (j : Nat) :
    (hexCell row j).length = if j = 7 then 4 else 3 := by
  unfold hexCell
  by_cases hj : j = 7
  · rw [if_pos hj, if_pos hj]
    cases row[j]? with
    | none => rfl
    | some b => simp only [hexByte_toList]; rfl
  · rw [if_neg hj, if_neg hj]
    cases row[j]? with
    | none => rfl
    | some b => simp only [hexByte_toList]; rfl

theorem hexCells_length (row : List UInt8) :
    ((List.range 16).flatMap (hexCell row)).length = 49 := by
  rw [List.length_flatMap, List.map_congr_left fun j _ => hexCell_length row j]
  rfl

theorem hexCell_filter (row : List UInt8) (j : Nat) : (hexCell row j).filter (· ≠ ' ')
    = match row[j]? with
      | some b => (hexByte b.toNat).toList
      | none => [] := by
  have hpad : (if j = 7 then [' '] else []).filter (· ≠ ' ') = [] := by
    split <;> rfl
  unfold hexCell
  rw [List.filter_append, hpad, List.append_nil]
  cases row[j]? with
  | none => rfl
  | some b =>
    have hkeep : (hexByte b.toNat).toList.filter (· ≠ ' ') = (hexByte b.toNat).toList :=
      List.filter_eq_self.mpr fun c hc => decide_eq_true (hexByte_plain b c hc).1
    dsimp only
    rw [List.filter_append, hkeep]
    exact List.append_nil _

/-- The columns from `j` on hold the bytes from `j` on. -/
theorem readPairs_cells (row : List UInt8) (n j : Nat) (hrow : row.length ≤ j + n) :
    readPairs (((List.range' j n).flatMap (hexCell row)).filter (· ≠ ' ')) = row.drop j := by
  induction n generalizing j with
  | zero =>
    rw [List.drop_eq_nil_of_le (by omega)]
    rfl
  | succ n ih =>
    rw [List.range'_succ, List.flatMap_cons, List.filter_append, hexCell_filter]
    cases hj : row[j]? with
    | some b =>
      rw [readPairs_byte, ih (j + 1) (by omega)]
      obtain ⟨hlt, hb⟩ := List.getElem?_eq_some_iff.mp hj
      rw [List.drop_eq_getElem_cons hlt, hb]
    | none =>
      have hle := List.getElem?_eq_none_iff.mp hj
      rw [List.nil_append, ih (j + 1) (by omega), List.drop_eq_nil_of_le hle,
        List.drop_eq_nil_of_le (by omega)]

theorem hexCell_newline (row : List UInt8) (j : Nat) : '\n' ∉ hexCell row j := by
  intro hc
  unfold hexCell at hc
  rcases List.mem_append.mp hc with hc | hc
  · cases hj : row[j]? with
    | none =>
      rw [hj] at hc
      exact absurd hc (by decide)
    | some b =>
      rw [hj] at hc
      rcases List.mem_append.mp hc with hbyte | hblank
      · exact (hexByte_plain b _ hbyte).2 rfl
      · exact absurd hblank (by decide)
  · split at hc
    · exact absurd hc (by decide)
    · exact List.not_mem_nil hc

theorem gutterChar_newline (b : UInt8) : gutterChar b ≠ '\n' := by
  intro hb
  unfold gutterChar at hb
  split at hb
  · rename_i hr
    have h32 : 32 ≤ b.toNat := hr.1
    have h126 : b.toNat ≤ 126 := hr.2
    have hval := congrArg Char.toNat hb
    rw [Char.toNat_ofNat, if_pos (by left; omega)] at hval
    have hten : ('\n' : Char).toNat = 10 := rfl
    omega
  · exact absurd hb (by decide)

theorem hexLine_newline (i : Nat) (row : List UInt8) : '\n' ∉ hexLine i row := by
  unfold hexLine
  simp only [List.mem_append, List.mem_flatMap, List.mem_map, not_or]
  refine ⟨⟨⟨⟨⟨fun hc => ?_, by decide⟩, ?_⟩, by decide⟩, ?_⟩, by decide⟩
  · obtain ⟨d, hd⟩ := hexOffset_hex i _ hc
    exact (hexDigit_plain hd).2 rfl
  · rintro ⟨j, -, hc⟩
    exact hexCell_newline row j hc
  · rintro ⟨b, -, hb⟩
    exact gutterChar_newline b hb

theorem hexOffset_ne_nil (i : Nat) : hexOffset i ≠ [] := by
  unfold hexOffset
  exact fun h => Nat.toDigits_ne_nil (List.append_eq_nil_iff.mp h).2

theorem readLine_hexLine (i : Nat) {row : List UInt8} (hrow : row.length ≤ 16) :
    readLine (hexLine i row) = row := by
  have hhead : ∃ d, (hexLine i row).head?.bind hexNibble = some d := by
    obtain ⟨c, rest, hc⟩ := List.exists_cons_of_ne_nil (hexOffset_ne_nil i)
    obtain ⟨d, hd⟩ := hexOffset_hex i c (by rw [hc]; exact List.mem_cons_self ..)
    refine ⟨d, ?_⟩
    unfold hexLine
    rw [hc]
    exact hd
  have hdrop : (hexLine i row).dropWhile (· ≠ ' ') = [' ', ' ']
      ++ ((List.range 16).flatMap (hexCell row)
        ++ ([' ', '|'] ++ row.map gutterChar ++ ['|'])) := by
    have hoff : ∀ c ∈ hexOffset i, decide (c ≠ ' ') = true := by
      intro c hc
      obtain ⟨d, hd⟩ := hexOffset_hex i c hc
      exact decide_eq_true (hexDigit_plain hd).1
    unfold hexLine
    simp only [List.append_assoc]
    rw [List.dropWhile_append_of_pos hoff]
    rfl
  obtain ⟨d, hd⟩ := hhead
  unfold readLine
  rw [hd, hdrop]
  dsimp only
  have htwo : ([' ', ' '] : List Char).length = 2 := rfl
  rw [List.drop_left' htwo, List.take_left' (hexCells_length row), List.range_eq_range',
    readPairs_cells row 16 0 (by omega), List.drop_zero]

/-! ## A whole dump -/

/-- Sixteen bytes at a time, the rows are the data. -/
theorem rows_flatten (data : List UInt8) (n : Nat) :
    (List.range n).flatMap (fun k => (data.drop (16 * k)).take 16) = data.take (16 * n) := by
  induction n with
  | zero => rfl
  | succ n ih =>
    rw [List.range_succ, List.flatMap_append, ih, Nat.mul_succ, List.take_add]
    simp

/-- Lines without newlines are split as they were joined. -/
theorem splitOn_lines (ls : List (List Char)) (h : ∀ l ∈ ls, '\n' ∉ l) (tail : List Char) :
    ((ls.flatMap fun l => l ++ ['\n']) ++ tail).splitOn '\n' = ls ++ tail.splitOn '\n' := by
  induction ls with
  | nil => rfl
  | cons l ls ih =>
    have hassoc : ((l :: ls).flatMap fun l => l ++ ['\n']) ++ tail
        = l ++ '\n' :: ((ls.flatMap fun l => l ++ ['\n']) ++ tail) := by simp
    have hl : '\n' ∉ l := h l (List.mem_cons_self ..)
    rw [hassoc, List.splitOn_append_cons_self, List.splitOn_eq_singleton hl,
      ih fun x hx => h x (List.mem_cons_of_mem _ hx)]
    rfl

/-- A dump reads as what was dumped. -/
theorem readsAs_dump (data : List UInt8) : ReadsAs (String.ofList (hexLines data)) data := by
  intro tail
  have hlines : hexLines data = ((List.range ((data.length + 15) / 16)).map fun k =>
      hexLine (16 * k) ((data.drop (16 * k)).take 16)).flatMap fun l => l ++ ['\n'] := by
    rw [List.flatMap_map]
    rfl
  unfold readLines
  rw [String.toList_ofList, hlines, splitOn_lines _ ?_ tail, List.flatMap_append, List.flatMap_map]
  · have hread : ∀ k, readLine (hexLine (16 * k) ((data.drop (16 * k)).take 16))
        = (data.drop (16 * k)).take 16 := fun k => readLine_hexLine _ (List.length_take_le ..)
    simp only [hread]
    rw [rows_flatten, List.take_of_length_le (by omega)]
  · intro l hl
    obtain ⟨k, -, rfl⟩ := List.mem_map.mp hl
    exact hexLine_newline _ _

/-- The note behind a dump that is cut. -/
theorem readsAs_moreBytes (n : Nat) : ReadsAs ("... (" ++ toString n ++ " more bytes)\n") [] := by
  have htext : ("... (" ++ toString n ++ " more bytes)\n").toList
      = ("... (".toList ++ (toString n).toList ++ " more bytes)".toList) ++ ['\n'] := by
    rw [String.toList_append, String.toList_append, List.append_assoc _ _ ['\n']]
    rfl
  have hnl : '\n' ∉ "... (".toList ++ (toString n).toList ++ " more bytes)".toList := by
    simp only [List.mem_append, not_or]
    refine ⟨⟨by decide, fun hc => ?_⟩, by decide⟩
    exact absurd (digit_of_mem_byte hc) (by decide)
  exact readsAs_note _ htext rfl hnl

/-- A limit shows that many bytes, or all there are. -/
theorem take_displayed (data : List UInt8) {n : Nat} (hn : 0 < n) :
    data.take (displayed data n) = data.take n := by
  unfold displayed
  split
  next => rw [Int.toNat_natCast]
  next hle =>
    have hlen : data.length ≤ n := by omega
    rw [List.take_of_length_le le_rfl, List.take_of_length_le hlen]

/-- The inspector's dump reads as the bytes it shows. -/
theorem read_hexDumpText (payload : List UInt8) (maxBytes : Int) :
    readHexDump (hexDumpText payload maxBytes) = payload.take (displayed payload maxBytes) := by
  unfold hexDumpText
  split
  next hempty =>
    rw [hempty, List.take_nil]
    decide
  next =>
    have hdump := readsAs_dump (payload.take (displayed payload maxBytes))
    dsimp only
    split
    · have hnote := readsAs_moreBytes (payload.length - displayed payload maxBytes)
      have hcut := (hdump.append hnote).read
      rw [List.append_nil] at hcut
      rw [String.ofList_append, String.ofList_toList]
      exact hcut
    · exact hdump.read

/--
From the text of a dump the bytes are read back: all of them in the stream panel, those
shown in the inspector, whose notes read as no bytes.
-/
theorem hexDump_roundTrip (payload : List UInt8) (maxBytes : Int) :
    readHexDump (formatHexDump payload) = payload
      ∧ readHexDump (hexDumpText payload maxBytes)
          = payload.take (displayed payload maxBytes) :=
  ⟨(readsAs_dump payload).read, read_hexDumpText payload maxBytes⟩

end Etherchimp
