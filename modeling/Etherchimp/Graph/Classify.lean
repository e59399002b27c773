import Etherchimp.Graph.State

/-!
# Device roles

A node is given a coarse device role from what was observed of its traffic. What the
device says of itself goes before any guess. The first role is committed at once; a
later one only when the classification has said it for two seconds, so that a scan
does not flip the roles of half the network back and forth.
-/

namespace Etherchimp

/-- Icon names by role. -/
def roleIcons : List (String × String) :=
  [("server", "server"), ("client", "client"), ("router", "router"), ("switch", "switch"),
    ("gateway", "gateway"), ("iot", "iot"), ("multicast", "multicast"), ("unknown", "unknown")]

/-- The icon of a role, empty for one the table lacks. -/
def roleIcon (role : String) : String := (roleIcons.lookup role).getD ""

/-- Peers from which on a node looks like a gateway. -/
def gatewayFanout : Nat := 16

/-- Role and icon by the observed statistics. -/
def classifyNode (n : Node) : String × String :=
  if n.deviceKind = "switch" ∨ n.deviceKind = "router" then (n.deviceKind, roleIcon n.deviceKind)
  else
    let total := n.inPackets + n.outPackets
    let peers := n.peers.entries.length
    let listening : Bool := 0 < n.listenPorts.entries.length
    let role :=
      if n.isGroup then "multicast"
      else if gatewayFanout ≤ peers then "gateway"
      else if listening ∧ n.outPackets ≤ n.inPackets then "server"
      else if peers = 1 ∧ ¬ listening ∧ 0 < total then "iot"
      else if 0 < total then "client"
      else "unknown"
    (role, roleIcon role)

/-- How long a candidate must persist before it replaces the role, in nanoseconds. -/
def roleFlipDamping : Int := 2 * 1000000000

/-- Commit the classification, or hold it as a candidate. -/
def commitRole (n : Node) (now : Int) : Node :=
  let (role, icon) := classifyNode n
  if n.role = "" ∨ role = n.role then
    -- birth, or steady state: a pending flip is dropped
    { n with role := role, icon := icon, pendingRole := "", pendingSince := 0 }
  else if n.pendingRole ≠ role then
    { n with pendingRole := role, pendingSince := now }
  else if roleFlipDamping ≤ now - n.pendingSince then
    { n with role := role, icon := icon, pendingRole := "", pendingSince := 0 }
  else n

/-- Commit the role of every node. -/
def Manager.commitRoles (m : Manager) (now : Int) : Manager :=
  { m with nodes := m.nodes.mapVal (commitRole · now) }

end Etherchimp
