import Etherchimp.Graph.Classify
import Etherchimp.Lib.Dwell
import Etherchimp.Lib.Run

/-!
# Role flips are damped

Between two commits the statistics of a node may become anything, so a history of
commits is a list of calls that each bring statistics of their own. The pending role
is the memory of that history: it has been the classification since the call its
window started at, and no other role has been the classification at the end of the
history, unless it is the committed one. A role is therefore replaced exactly when the
classification has been another one for the damping time.
-/

namespace Etherchimp

/-- A commit, and the statistics it finds on the node. -/
structure RoleCall where
  now : Int
  stats : Node

/-- The node with the observed statistics; its role is what it was. -/
def Node.observe (n stats : Node) : Node :=
  { stats with
    role := n.role
    icon := n.icon
    pendingRole := n.pendingRole
    pendingSince := n.pendingSince }

def RoleCall.step (n : Node) (c : RoleCall) : Node := commitRole (n.observe c.stats) c.now

/-- The role the classification gives at a call. -/
def RoleCall.classified (c : RoleCall) : String := (classifyNode c.stats).1

/-- A node after a history of commits. -/
def Node.after (n : Node) (calls : List RoleCall) : Node := Run.exec RoleCall.step n calls

theorem Node.after_concat (n : Node) (done : List RoleCall) (c : RoleCall) :
    n.after (done ++ [c]) = RoleCall.step (n.after done) c := Run.exec_concat ..

/-- A sweep of the manager is a call on every node, with the statistics it has. -/
theorem Manager.lookup_commitRoles (m : Manager) (now : Int) (id : String) :
    (m.commitRoles now).nodes.lookup id
      = (m.nodes.lookup id).map fun n => RoleCall.step n ⟨now, n⟩ :=
  KeyedMap.lookup_mapVal ..

/-! ## One commit -/

theorem classifyNode_ne_empty (n : Node) : (classifyNode n).1 ≠ "" := by
  unfold classifyNode
  dsimp only
  by_cases hkind : n.deviceKind = "switch" ∨ n.deviceKind = "router"
  · rw [if_pos hkind]
    rcases hkind with h | h <;> rw [h] <;> decide
  · rw [if_neg hkind]
    dsimp only
    repeat' split
    all_goals decide

/-- What a commit does to the role and its candidate. -/
inductive Commits (n : Node) (c : RoleCall) (n' : Node) : Prop
  | settled (h : n.role = "" ∨ c.classified = n.role) (role : n'.role = c.classified)
      (pending : n'.pendingRole = "")
  | opened (hrole : n.role ≠ "") (hflip : c.classified ≠ n.role)
      (hnew : n.pendingRole ≠ c.classified) (role : n'.role = n.role)
      (pending : n'.pendingRole = c.classified) (since : n'.pendingSince = c.now)
  | flipped (hrole : n.role ≠ "") (hflip : c.classified ≠ n.role)
      (hheld : n.pendingRole = c.classified) (hlong : n.pendingSince + roleFlipDamping ≤ c.now)
      (role : n'.role = c.classified) (pending : n'.pendingRole = "")
  | waiting (hrole : n.role ≠ "") (hflip : c.classified ≠ n.role)
      (hheld : n.pendingRole = c.classified) (hshort : c.now < n.pendingSince + roleFlipDamping)
      (role : n'.role = n.role) (pending : n'.pendingRole = n.pendingRole)
      (since : n'.pendingSince = n.pendingSince)

theorem RoleCall.commits (n : Node) (c : RoleCall) : Commits n c (c.step n) := by
  -- the statistics decide the class, what the node was decides the rest
  have hclass : classifyNode (n.observe c.stats) = classifyNode c.stats := rfl
  have hrole : (n.observe c.stats).role = n.role := rfl
  have hpending : (n.observe c.stats).pendingRole = n.pendingRole := rfl
  have hsince : (n.observe c.stats).pendingSince = n.pendingSince := rfl
  unfold RoleCall.step commitRole
  rw [hclass, hrole, hpending, hsince]
  dsimp only
  by_cases hsteady : n.role = "" ∨ (classifyNode c.stats).1 = n.role
  · rw [if_pos hsteady]
    exact .settled hsteady rfl rfl
  rw [if_neg hsteady]
  obtain ⟨hborn, hflip⟩ := not_or.mp hsteady
  by_cases hnew : n.pendingRole = (classifyNode c.stats).1
  · rw [if_neg (not_not.mpr hnew)]
    by_cases hlong : roleFlipDamping ≤ c.now - n.pendingSince
    · rw [if_pos hlong]
      exact .flipped hborn hflip hnew (by omega) rfl rfl
    · rw [if_neg hlong]
      exact .waiting hborn hflip hnew (by omega) rfl rfl rfl
  · rw [if_pos hnew]
    exact .opened hborn hflip hnew rfl rfl rfl

/-! ## Histories of commits -/

/-- The classification has been `role` at every call since `t`. -/
def ClassifiedSince (role : String) (t : Int) (calls : List RoleCall) : Prop :=
  Dwell.Since RoleCall.now (fun c => c.classified = role) t calls

/-- The pending role remembers what the history of commits says. -/
structure Remembers (calls : List RoleCall) (n : Node) : Prop where
  /-- The candidate has been the classification since its window started. -/
  held : n.role ≠ "" → n.pendingRole ≠ "" → ClassifiedSince n.pendingRole n.pendingSince calls
  /-- What has been the classification for some time is committed, or the candidate. -/
  noticed : ∀ role t, ClassifiedSince role t calls →
    n.role = role ∨ n.pendingRole = role ∧ n.pendingSince ≤ t

theorem remembers_init {n : Node} (h : n.role = "" ∨ n.pendingRole = "") : Remembers [] n where
  held hrole hpending := (h.elim hrole hpending).elim
  noticed _ _ hsince := (Dwell.not_since_nil hsince).elim

theorem Remembers.step {done : List RoleCall} {n : Node} (h : Remembers done n) (c : RoleCall)
    (hdone : Budget.Chronological RoleCall.now (done ++ [c])) :
    Remembers (done ++ [c]) (c.step n) := by
  cases c.commits n with
  | settled _ hrole hpending =>
    refine ⟨fun _ hne => (hne hpending).elim, fun role t hsince => Or.inl ?_⟩
    rw [hrole]
    exact (Dwell.since_concat.mp hsince).1
  | flipped _ _ _ _ hrole hpending =>
    refine ⟨fun _ hne => (hne hpending).elim, fun role t hsince => Or.inl ?_⟩
    rw [hrole]
    exact (Dwell.since_concat.mp hsince).1
  | opened hborn hflip hnew hrole hpending hstart =>
    refine ⟨fun _ _ => ?_, fun role t hsince => Or.inr ?_⟩
    · rw [hpending, hstart]
      exact Dwell.Since.start rfl
    · obtain ⟨rfl, ht | hsince⟩ := Dwell.since_concat.mp hsince
      · exact ⟨hpending, by omega⟩
      · -- a role classified before this call would have been the candidate
        rcases h.noticed _ _ hsince with heq | ⟨heq, _⟩
        · exact (hflip heq.symm).elim
        · exact (hnew heq).elim
  | waiting hborn hflip hheld _ hrole hpending hstart =>
    have hne : n.pendingRole ≠ "" := hheld ▸ classifyNode_ne_empty c.stats
    have hsofar := h.held hborn hne
    refine ⟨fun _ _ => ?_, fun role t hsince => ?_⟩
    · rw [hpending, hstart]
      exact hsofar.concat hheld.symm
    · rw [hrole, hpending, hstart]
      obtain ⟨rfl, ht | hsince⟩ := Dwell.since_concat.mp hsince
      · -- the window started with an earlier call
        exact Or.inr ⟨hheld, ht ▸ hsofar.le hdone⟩
      · exact h.noticed _ _ hsince

theorem remembers_after {n : Node} (h : n.role = "" ∨ n.pendingRole = "") (calls : List RoleCall)
    (hcalls : Budget.Chronological RoleCall.now calls) : Remembers calls (n.after calls) := by
  induction calls using List.reverseRecOn with
  | nil => exact remembers_init h
  | append_singleton done c ih =>
    rw [Node.after_concat]
    exact (ih (List.pairwise_append.mp hcalls).1).step c hcalls

/-- The first commit is the birth of a role: from then on there is one. -/
theorem Node.role_after (n : Node) {calls : List RoleCall} (hne : calls ≠ []) :
    (n.after calls).role ≠ "" := by
  obtain ⟨done, c, rfl⟩ := (List.eq_nil_or_concat' calls).resolve_left hne
  rw [Node.after_concat]
  have hclass : c.classified ≠ "" := classifyNode_ne_empty c.stats
  cases c.commits (n.after done) with
  | settled _ hrole => rwa [hrole]
  | flipped _ _ _ _ hrole => rwa [hrole]
  | opened hborn _ _ hrole => rwa [hrole]
  | waiting hborn _ _ _ hrole => rwa [hrole]

/-! ## When a role flips -/

theorem roleFlipDamping_pos : 0 < roleFlipDamping := by decide

/-- The classification has been `role` for the damping time at `now`. -/
def ClassifiedLong (role : String) (now : Int) (calls : List RoleCall) : Prop :=
  Dwell.Lasted RoleCall.now (fun c => c.classified = role) roleFlipDamping now calls

theorem Remembers.classifiedLong_of_flip {done : List RoleCall} {n : Node} {c : RoleCall}
    (h : Remembers done n) (hborn : n.role ≠ "") (hflip : (c.step n).role ≠ n.role) :
    ClassifiedLong (c.step n).role c.now (done ++ [c]) := by
  cases c.commits n with
  | settled hsteady hrole _ =>
    rcases hsteady with h | h
    · exact (hborn h).elim
    · exact (hflip (hrole.trans h)).elim
  | opened _ _ _ hrole => exact (hflip hrole).elim
  | waiting _ _ _ _ hrole => exact (hflip hrole).elim
  | flipped _ _ hheld hlong hrole _ =>
    have hne : n.pendingRole ≠ "" := hheld ▸ classifyNode_ne_empty c.stats
    have hsofar := h.held hborn hne
    rw [hrole, ← hheld]
    exact ⟨n.pendingSince, hsofar.concat hheld.symm, hlong⟩

theorem Remembers.role_of_classifiedLong {done : List RoleCall} {n : Node} {c : RoleCall}
    (h : Remembers done n) {role : String} (hlong : ClassifiedLong role c.now (done ++ [c])) :
    (c.step n).role = role := by
  have hdamp := roleFlipDamping_pos
  obtain ⟨rfl, t, hsince, ht⟩ := (Dwell.lasted_concat (by omega)).mp hlong
  cases c.commits n with
  | settled _ hrole => exact hrole
  | flipped _ _ _ _ hrole => exact hrole
  | opened _ hflip hnew =>
    rcases h.noticed _ _ hsince with heq | ⟨heq, _⟩
    · exact (hflip heq.symm).elim
    · exact (hnew heq).elim
  | waiting _ hflip _ hshort =>
    rcases h.noticed _ _ hsince with heq | ⟨_, hle⟩
    · exact (hflip heq.symm).elim
    · omega

/--
**Role flips are damped.** Once a role is committed, a call replaces it only when the
classification has been the new role at every call for two seconds; and a role that has
been the classification for two seconds is the committed one.
-/
theorem roleFlips_damped {n : Node} (hbirth : n.role = "" ∨ n.pendingRole = "")
    {done : List RoleCall} {c : RoleCall}
    (hcalls : Budget.Chronological RoleCall.now (done ++ [c])) :
    ((n.after done).role ≠ "" → (n.after (done ++ [c])).role ≠ (n.after done).role →
        ClassifiedLong (n.after (done ++ [c])).role c.now (done ++ [c]))
    ∧ ∀ role, ClassifiedLong role c.now (done ++ [c]) → (n.after (done ++ [c])).role = role := by
  have hdone := remembers_after hbirth done (List.pairwise_append.mp hcalls).1
  rw [Node.after_concat]
  exact ⟨hdone.classifiedLong_of_flip, fun _ => hdone.role_of_classifiedLong⟩

/-- A host that sends, and may have told what device it is. -/
def talker (deviceKind : String) : Node where
  ip := "10.0.0.1"
  hostname := ""
  ips := ["10.0.0.1"]
  packetCount := 1
  byteCount := 60
  lastSeen := 0
  isGroup := false
  outPackets := 1
  deviceKind := deviceKind

/-- A client at first, a router by what it says of itself from the second call on. -/
def announced : List RoleCall :=
  [⟨0, talker ""⟩, ⟨1000000000, talker "router"⟩, ⟨2500000000, talker "router"⟩]

/-- Two seconds after the announcement the client is a router. -/
theorem roleFlips_damped_announced :
    ((talker "").after (announced ++ [⟨3000000000, talker "router"⟩])).role = "router"
    ∧ ((talker "").after announced).role = "client"
    ∧ ClassifiedLong "router" 3000000000 (announced ++ [⟨3000000000, talker "router"⟩]) := by
  have hcalls : Budget.Chronological RoleCall.now
      (announced ++ [⟨3000000000, talker "router"⟩]) := by
    unfold Budget.Chronological
    decide +kernel
  have hdamped := roleFlips_damped (n := talker "") (Or.inl rfl) hcalls
  have hlong : ClassifiedLong "router" 3000000000
      (announced ++ [⟨3000000000, talker "router"⟩]) := by
    refine ⟨1000000000, ⟨[⟨0, talker ""⟩], ⟨1000000000, talker "router"⟩,
      [⟨2500000000, talker "router"⟩, ⟨3000000000, talker "router"⟩], rfl, rfl, ?_⟩, by decide⟩
    decide +kernel
  have hrole := hdamped.2 "router" hlong
  have hclient : ((talker "").after announced).role = "client" := by decide +kernel
  refine ⟨hrole, hclient, ?_⟩
  have hflip := hdamped.1 (by rw [hclient]; decide) (by rw [hrole, hclient]; decide)
  rwa [hrole] at hflip

end Etherchimp
