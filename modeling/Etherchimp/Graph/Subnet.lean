import Etherchimp.Graph.State

/-!
# Subnets as text

The /24 of a node and the names of the supernodes hosts collapse into: a /24 is
`a.b.c.0/24`, a /16 is `a.b.0.0/16`, and the residual tail of an opened subnet is
its name with a `+`.
-/

namespace Etherchimp

/-- `strings.TrimSuffix`. -/
def trimSuffix (s suffix : String) : String :=
  if suffix.toList <:+ s.toList then
    String.ofList (s.toList.take (s.toList.length - suffix.toList.length))
  else s

/-- `strings.HasSuffix`. -/
def hasSuffix (s suffix : String) : Bool := suffix.toList <:+ s.toList

/-- What comes before the last dot; `none` when there is no dot. -/
def beforeLastDot (s : String) : Option String :=
  match s.toList.reverse.dropWhile (· ≠ '.') with
  | [] => none
  | _ :: before => some (String.ofList before.reverse)

/-- The `a.b.c` prefix of an IPv4 address, or `""`. -/
def subnet24 (ipStr : String) : String :=
  match parseIP ipStr with
  | none => ""
  | some ip =>
      match to4 ip with
      | none => ""
      | some v4 =>
          (v4.getD 0 0).repr ++ "." ++ (v4.getD 1 0).repr ++ "." ++ (v4.getD 2 0).repr

/-- A node's /24 from its addresses, falling back to its id. -/
def primarySubnet24 (n : Node) : String :=
  match n.ips.find? fun ip => subnet24 ip ≠ "" with
  | some ip => subnet24 ip
  | none => subnet24 n.ip

/-- The id of the tail that an opened subnet keeps. -/
def residualSuperID (cidr : String) : String := cidr ++ "+"

/-- Strip the `+` of a tail. -/
def baseCIDR (id : String) : String := trimSuffix id "+"

/-- The part before the slash. -/
def networkAddrOfCIDR (cidr : String) : String :=
  String.ofList (cidr.toList.takeWhile (· ≠ '/'))

/-- `a.b.c.0/24` to `a.b.0.0/16`. -/
def subnet16From24 (c24 : String) : String :=
  let base := trimSuffix c24 ".0/24"
  if base = c24 then ""
  else
    match beforeLastDot base with
    | none => ""
    | some before => before ++ ".0.0/16"

/--
Whether a node is the given subnet's supernode or its tail, a /24 supernode under a
/16, or a host inside the subnet.
-/
def nodeBelongsToCIDR (n : Node) (cidr : String) (isSuper : String → Bool) : Bool :=
  if cidr = "" then true
  else
    let cidr := baseCIDR cidr
    let id := n.ip
    if id = cidr ∨ id = residualSuperID cidr then true
    else if isSuper id then
      let base := baseCIDR id
      if hasSuffix cidr "/16" ∧ hasSuffix base "/24" then subnet16From24 base = cidr else false
    else if hasSuffix cidr "/24" then
      let s := primarySubnet24 n
      s ≠ "" ∧ s ++ ".0/24" = cidr
    else if hasSuffix cidr "/16" then
      let s := primarySubnet24 n
      if s = "" then false else subnet16From24 (s ++ ".0/24") = cidr
    else false

example : subnet24 "10.1.2.3" = "10.1.2" ∧ subnet24 "fe80::1" = "" := by decide
example : subnet16From24 "10.1.2.0/24" = "10.1.0.0/16" := by decide

end Etherchimp
