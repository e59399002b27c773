import Mathlib.Data.List.Basic

/-!
# IP addresses as text

`net.ParseIP`, as the Go library documents it: dotted decimal without leading
zeros, or colon-separated hexadecimal groups with at most one `::` and an
optional dotted tail; a zone is refused. The result is always the 16-byte form,
an IPv4 address being mapped under `::ffff:0:0/96`, and `to4` recognises exactly
that prefix.
-/

namespace Etherchimp

/-- The value of one hexadecimal digit. -/
def hexNibble (c : Char) : Option Nat :=
  if '0' ≤ c ∧ c ≤ '9' then some (c.toNat - '0'.toNat)
  else if 'a' ≤ c ∧ c ≤ 'f' then some (c.toNat - 'a'.toNat + 10)
  else if 'A' ≤ c ∧ c ≤ 'F' then some (c.toNat - 'A'.toNat + 10)
  else none

namespace IP

/-- One decimal field: one to three digits, no leading zero, at most 255. -/
def parseField (s : List Char) : Option Nat :=
  if s = [] ∨ 3 < s.length ∨ ¬ s.all Char.isDigit ∨ (1 < s.length ∧ s.head? = some '0') then none
  else
    let v := s.foldl (fun v c => v * 10 + (c.toNat - '0'.toNat)) 0
    if v ≤ 255 then some v else none

/-- Dotted decimal: exactly four fields. -/
def parseIPv4Fields (s : List Char) : Option (List Nat) :=
  let fields := s.splitOn '.'
  if fields.length = 4 then fields.mapM parseField else none

/-- The leading run of hexadecimal digits: its value, its length and what follows. -/
def takeHex (acc off : Nat) : List Char → Nat × Nat × List Char
  | [] => (acc, off, [])
  | c :: s =>
      match hexNibble c with
      | some d => takeHex (acc * 16 + d) (off + 1) s
      | none => (acc, off, c :: s)

/--
The group loop of the IPv6 parser. `fuel` is the number of groups that still fit,
`out` the bytes read so far and `ell` the byte position of the `::` when one was
seen; the result is the bytes, the position and the unread rest.
-/
def parseGroups : Nat → List Nat → Option Nat → List Char →
    Option (List Nat × Option Nat × List Char)
  | 0, out, ell, s => some (out, ell, s)
  | fuel + 1, out, ell, s =>
      match takeHex 0 0 s with
      | (acc, off, rest) =>
        if off = 0 ∨ 4 < off then none
        else if rest.head? = some '.' then
          -- a dotted tail takes the last four bytes
          if (ell = none ∧ out.length ≠ 12) ∨ 16 < out.length + 4 then none
          else (parseIPv4Fields s).map fun b => (out ++ b, ell, [])
        else
          let out := out ++ [acc / 256, acc % 256]
          match rest with
          | [] => some (out, ell, [])
          | ':' :: ':' :: s' =>
              if ell.isSome then none
              else if s' = [] then some (out, some out.length, [])
              else parseGroups fuel out (some out.length) s'
          | ':' :: c :: s' => parseGroups fuel out ell (c :: s')
          | _ => none

/-- Expand the `::` of a short address, or check that a full one has none. -/
def expandEllipsis (out : List Nat) (ell : Option Nat) : Option (List Nat) :=
  if out.length < 16 then
    ell.map fun e => out.take e ++ List.replicate (16 - out.length) 0 ++ out.drop e
  else if ell.isSome then none
  else some out

def parseIPv6 (s : List Char) : Option (List Nat) :=
  let (ell, s) := match s with
    | ':' :: ':' :: s' => (some 0, s')
    | _ => (none, s)
  if ell.isSome ∧ s = [] then some (List.replicate 16 0)
  else
    match parseGroups 8 [] ell s with
    | some (out, ell, []) => expandEllipsis out ell
    | _ => none

/-- The IPv4-in-IPv6 prefix. -/
def v4Prefix : List Nat := List.replicate 10 0 ++ [255, 255]

end IP

/-- `net.ParseIP`: the 16-byte form, or `none` for text that is no address. -/
def parseIP (s : String) : Option (List Nat) :=
  -- the first separator decides the family; a zone is refused
  match s.toList.find? fun c => c = '.' ∨ c = ':' ∨ c = '%' with
  | some '.' => (IP.parseIPv4Fields s.toList).map (IP.v4Prefix ++ ·)
  | some ':' => if '%' ∈ s.toList then none else IP.parseIPv6 s.toList
  | _ => none

/-- `IP.To4`: the last four bytes of a mapped address. -/
def to4 (ip : List Nat) : Option (List Nat) :=
  if ip.take 12 = IP.v4Prefix then some (ip.drop 12) else none

example : parseIP "224.0.0.251" = some (IP.v4Prefix ++ [224, 0, 0, 251]) := by decide
example : parseIP "fe80::1:0" = some ([254, 128] ++ List.replicate 11 0 ++ [1, 0, 0]) := by decide
example : (parseIP "::ffff:10.0.0.255").bind to4 = some [10, 0, 0, 255] := by decide
example : parseIP "10.0.0.01" = none ∧ parseIP "1::2::3" = none ∧ parseIP "host" = none := by
  decide

end Etherchimp
