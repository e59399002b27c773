import Etherchimp.Capture.Local

/-!
# Payloads as text

The packet inspector and the stream panel show a payload as a hex dump, sixteen bytes a
line: the offset, the bytes, and a gutter with what is printable. The inspector's is cut at
a length and says how much more there is, and so is its text view.
-/

namespace Etherchimp

/-- The byte itself when it is printable, or a dot. -/
def gutterChar (b : UInt8) : Char := if 32 ≤ b ∧ b ≤ 126 then Char.ofNat b.toNat else '.'

/-- `%08x` -/
def hexOffset (i : Nat) : List Char :=
  let digits := Nat.toDigits 16 i
  List.replicate (8 - digits.length) '0' ++ digits

/-- The cell of one column: the byte and a blank, or three blanks; one more after the eighth. -/
def hexCell (row : List UInt8) (j : Nat) : List Char :=
  (match row[j]? with
    | some b => (hexByte b.toNat).toList ++ [' ']
    | none => [' ', ' ', ' ']) ++ if j = 7 then [' '] else []

/-- One line, without its newline. -/
def hexLine (i : Nat) (row : List UInt8) : List Char :=
  hexOffset i ++ [' ', ' '] ++ (List.range 16).flatMap (hexCell row) ++ [' ', '|']
    ++ row.map gutterChar ++ ['|']

/-- The lines of a dump, each with a newline. -/
def hexLines (data : List UInt8) : List Char :=
  (List.range ((data.length + 15) / 16)).flatMap fun k =>
    hexLine (16 * k) ((data.drop (16 * k)).take 16) ++ ['\n']

/-- `formatHexDump` of the stream panel. -/
def formatHexDump (data : List UInt8) : String := String.ofList (hexLines data)

/-- How many bytes are shown; no positive limit is no limit. -/
def displayed (payload : List UInt8) (maxBytes : Int) : Nat :=
  if 0 < maxBytes ∧ maxBytes < payload.length then maxBytes.toNat else payload.length

def hexDumpText (payload : List UInt8) (maxBytes : Int) : String :=
  if payload = [] then "No payload data available"
  else
    let display := displayed payload maxBytes
    let dump := hexLines (payload.take display)
    if display < payload.length then
      String.ofList (dump ++ ("... (" ++ toString (payload.length - display)
        ++ " more bytes)\n").toList)
    else String.ofList dump

/-- A byte of text, line breaks and tabs among them, or a dot. -/
def textByte (b : UInt8) : Char :=
  if (32 ≤ b ∧ b ≤ 126) ∨ b = 10 ∨ b = 13 ∨ b = 9 then Char.ofNat b.toNat else '.'

def asciiText (payload : List UInt8) (maxBytes : Int) : String :=
  if payload = [] then "No payload data available"
  else
    let display := displayed payload maxBytes
    let text := String.ofList ((payload.take display).map textByte)
    if display < payload.length then
      text ++ ("\n\n... (" ++ toString (payload.length - display) ++ " more bytes)")
    else text

end Etherchimp
