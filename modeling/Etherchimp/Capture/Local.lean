import Etherchimp.Graph.Address
import Etherchimp.Lib.Panic

/-!
# Addresses as bytes, and the ones the pipeline drops

A decoded frame carries addresses as bytes. This module prints them the way the
Go library does (`net.IP.String`, `net.HardwareAddr.String`) and decides which
are local or multicast. Reads by index are checked reads.
-/

namespace Etherchimp

open Panic

/-- A byte string as the numbers its bytes are. -/
def octets (b : List UInt8) : List Nat := b.map UInt8.toNat

/-- `IP.To4`: a four-byte address, or the tail of a mapped sixteen-byte one. -/
def ipTo4 (ip : List Nat) : Option (List Nat) :=
  if ip.length = 4 then some ip
  else if ip.length = 16 then to4 ip
  else none

/-- Lowercase hexadecimal digits, without leading zeros. -/
def hexText (n : Nat) : String := String.ofList (Nat.toDigits 16 n)

/-- One byte as two hexadecimal digits. -/
def hexByte (n : Nat) : String := hexText (n / 16) ++ hexText (n % 16)

/-- The sixteen-bit groups of an address. -/
def hexGroups : List Nat → List Nat
  | hi :: lo :: ip => (hi * 256 + lo) :: hexGroups ip
  | _ => []

/-- The first of the longest runs of two or more zero groups: its start and its length. -/
def zeroRun (groups : List Nat) : Option (Nat × Nat) :=
  (List.range groups.length).foldl (fun best i =>
    let l := ((groups.drop i).takeWhile (· = 0)).length
    if 2 ≤ l ∧ (best.map Prod.snd).getD 0 < l then some (i, l) else best) none

/-- Colon-separated groups, the longest zero run written `::`. -/
def ipv6Text (groups : List Nat) : String :=
  match zeroRun groups with
  | none => ":".intercalate (groups.map hexText)
  | some (i, l) =>
      ":".intercalate ((groups.take i).map hexText) ++ "::"
        ++ ":".intercalate ((groups.drop (i + l)).map hexText)

/-- `IP.String`. -/
def ipString (ip : List Nat) : String :=
  if ip = [] then "<nil>"
  else if ip.length ≠ 4 ∧ ip.length ≠ 16 then "?" ++ String.join (ip.map hexByte)
  else
    match ipTo4 ip with
    | some ip4 => ".".intercalate (ip4.map toString)
    | none => ipv6Text (hexGroups ip)

/-- `HardwareAddr.String`. -/
def hwString (mac : List UInt8) : String := ":".intercalate ((octets mac).map hexByte)

/-- Link-local, multicast or loopback, for the four bytes of an IPv4 address. -/
def isLocalV4 (ip4 : List Nat) : Except Panic Bool := do
  let a ← index ip4 0
  let linkLocal ← andThen (a = 169) ((index ip4 1).map (· = 254))
  return linkLocal || decide (224 ≤ a ∧ a ≤ 239) || decide (a = 127)

/-- The loopback address `::1`. -/
def ipv6Loopback : List Nat := List.replicate 15 0 ++ [1]

/--
Whether an address is local, link-local or multicast. Only text that parses is
tested, so lowering is the ASCII one.
-/
def isLocalOrMulticastAddress (ipStr : String) : Except Panic Bool :=
  match parseIP ipStr with
  | none => return false
  | some ip =>
      match ipTo4 ip with
      | some ip4 => isLocalV4 ip4
      | none =>
          let lower := (toLowerASCII ipStr).toList
          return "fe80:".toList.isPrefixOf lower || "ff".toList.isPrefixOf lower
            || ip = ipv6Loopback
            || "fc".toList.isPrefixOf lower || "fd".toList.isPrefixOf lower

/-- The same test on an address in bytes; IPv6 goes through the text. -/
def isLocalOrMulticastIP (ip : List Nat) : Except Panic Bool :=
  match ipTo4 ip with
  | some ip4 => isLocalV4 ip4
  | none => isLocalOrMulticastAddress (ipString ip)

example : ipString [32, 1, 13, 184, 0, 0, 0, 0, 0, 0, 0, 0, 0, 0, 0, 1] = "2001:db8::1" := by decide
example : isLocalOrMulticastIP [224, 0, 0, 251] = .ok true := by decide

/-! ## The tests never panic -/

/-- `To4` gives four bytes. -/
theorem ipTo4_length {ip ip4 : List Nat} (h : ipTo4 ip = some ip4) : ip4.length = 4 := by
  unfold ipTo4 at h
  split at h
  · rename_i hl
    rw [Option.some.injEq] at h
    rw [← h, hl]
  · split at h
    · rename_i hl
      unfold to4 at h
      split at h
      · rw [Option.some.injEq] at h
        rw [← h, List.length_drop, hl]
      · cases h
    · cases h

theorem isLocalV4_runs {ip ip4 : List Nat} (h : ipTo4 ip = some ip4) : Runs (isLocalV4 ip4) := by
  have hlen := ipTo4_length h
  refine Runs.bind (runs_index_iff.mpr (by omega)) fun a _ => ?_
  refine Runs.bind (Runs.andThen fun _ => ?_) fun _ _ => runs_pure _
  exact Runs.map (runs_index_iff.mpr (by omega)) _

theorem isLocalOrMulticastAddress_runs (ipStr : String) :
    Runs (isLocalOrMulticastAddress ipStr) := by
  unfold isLocalOrMulticastAddress
  split
  · exact runs_pure _
  · split
    · rename_i h
      exact isLocalV4_runs h
    · exact runs_pure _

theorem isLocalOrMulticastIP_runs (ip : List Nat) : Runs (isLocalOrMulticastIP ip) := by
  unfold isLocalOrMulticastIP
  split
  · rename_i h
    exact isLocalV4_runs h
  · exact isLocalOrMulticastAddress_runs _

end Etherchimp
