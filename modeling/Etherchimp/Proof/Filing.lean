import Etherchimp.Proof.GivenNames
import Etherchimp.Proof.Lookups

/-!
# Where an endpoint and a MAC take the ids

The two steps of an `Ingest` call that move ids, in closed form. Filing an endpoint
(`addOrUpdateNodeLocked`) merges the node the address was on into the one it is
filed under. Recording an exclusive MAC (`recordMACLocked`) merges the MAC's quiet
anchor into the node, and then the node into the MAC when it can be promoted. For
each step `Files` and `Settles` say what every address and every MAC leads to
afterwards, and what the nodes there are, all in terms of the tables before it.

`read f` is what `f` says of the node under an id. A merge carries over any `f`
that looks at nothing it recomputes (`Lasting`): here whether the node is a group,
and when it was seen last.
-/

namespace Etherchimp

open Manager

/-- What `f` says of the node under `id`, where there is one. -/
def Manager.read {α : Type} (m : Manager) (f : Node → α) (id : String) : Option α :=
  (m.nodes.lookup id).map f

variable {α : Type} {f : Node → α} {m m' : Manager}
variable {nodeID newID oldID mac ip hostname k : String} {bytes : Nat} {now : Int}

theorem read_eq {n : Node} (h : m.nodes.lookup k = some n) : m.read f k = some (f n) := by
  unfold Manager.read
  rw [h]
  rfl

/-- Repointing an id to itself changes nothing. -/
@[simp] theorem repoint_self (id x : String) : repoint id id x = x := by
  unfold repoint
  split
  · rename_i h
    exact h.symm
  · rfl

theorem repoint_old (newID oldID : String) : repoint newID oldID oldID = newID := if_pos rfl

/-- Everything at the anchor, at the node and at its new id ends under the new id. -/
theorem repoint_twice (key nodeID anchor x : String) :
    repoint key nodeID (repoint nodeID anchor x)
      = if x ∈ [nodeID, anchor, key] then key else x := by
  unfold repoint
  by_cases ha : x = anchor
  · simp [ha]
  · by_cases hn : x = nodeID
    · simp [hn]
    · rw [if_neg ha, if_neg hn]
      by_cases hk : x = key
      · rw [if_pos (by simp [hk]), hk]
      · rw [if_neg (by simp [ha, hn, hk])]

section Tables

variable [RuneCase]

/-- A merge, a note and a re-key leave `f` alone. -/
structure Lasting (f : Node → α) : Prop where
  rebuild : ∀ n, f (rebuildSearchCorpusLocked n) = f n
  absorb : ∀ n o, f (absorbNode n o) = f n
  named : ∀ n id hostname, f { n with ip := id, hostname := hostname } = f n
  noted : ∀ n macs, f { n with macs := macs } = f n

theorem lasting_isGroup : Lasting Node.isGroup :=
  ⟨fun _ => rfl, fun _ _ => rfl, fun _ _ _ => rfl, fun _ _ => rfl⟩

theorem lasting_lastSeen : Lasting Node.lastSeen :=
  ⟨fun _ => rfl, fun _ _ => rfl, fun _ _ _ => rfl, fun _ _ => rfl⟩

/-! ## Moves -/

/-- After a merge the new id's node speaks, and the old one's when there was none. -/
theorem merge_read (hf : Lasting f) (hne : oldID ≠ newID) (k : String) :
    (m.mergeNodeInto newID oldID hostname).read f k
      = if k = oldID then none
        else if k = newID then (m.read f newID).or (m.read f oldID)
        else m.read f k := by
  unfold Manager.read
  rw [mergeNodeInto_nodes hne]
  split
  · rfl
  · split
    · cases m.nodes.lookup newID with
      | none =>
        cases m.nodes.lookup oldID with
        | none => rfl
        | some o => exact congrArg some ((hf.rebuild _).trans (hf.named o newID hostname))
      | some n =>
        cases m.nodes.lookup oldID with
        | none => exact congrArg some (hf.rebuild n)
        | some o => exact congrArg some ((hf.rebuild _).trans (hf.absorb n o))
    · rfl

theorem noteMAC_read (hf : Lasting f) {node : Node} (hn : m.nodes.lookup nodeID = some node)
    (k : String) : (m.noteMAC nodeID mac node).read f k = m.read f k := by
  unfold Manager.read noteMAC
  split
  · rfl
  · dsimp only
    rw [KeyedMap.lookup_insert_eq]
    split
    · rename_i hk
      rw [hk, hn]
      exact congrArg some ((hf.rebuild _).trans (hf.noted node _))
    · rfl

/-- `oldID` and everything at it moves to `newID`. -/
structure Moves (m m' : Manager) (oldID newID : String) : Prop where
  ipTo : ∀ a, m'.ipToNodeID.lookup a = (m.ipToNodeID.lookup a).map (repoint newID oldID)
  macTo : ∀ a, m'.macToNodeID.lookup a = (m.macToNodeID.lookup a).map (repoint newID oldID)
  shared : m'.macShared = m.macShared
  window : m'.macActiveWindow = m.macActiveWindow
  read : ∀ {α : Type} {f : Node → α}, Lasting f → ∀ k, m'.read f k
    = if oldID = newID then m.read f k
      else if k = oldID then none
      else if k = newID then (m.read f newID).or (m.read f oldID)
      else m.read f k

/-- Nothing has to move from an id to itself. -/
theorem Moves.stay (hi : m'.ipToNodeID = m.ipToNodeID) (ha : m'.macToNodeID = m.macToNodeID)
    (hs : m'.macShared = m.macShared) (hw : m'.macActiveWindow = m.macActiveWindow)
    (hr : ∀ {α : Type} {f : Node → α}, Lasting f → ∀ k, m'.read f k = m.read f k) (id : String) :
    Moves m m' id id := by
  have hid : repoint id id = fun x => x := funext fun x => repoint_self id x
  refine ⟨fun a => ?_, fun a => ?_, hs, hw, fun hf k => ?_⟩
  · rw [hi, hid, Option.map_id']
  · rw [ha, hid, Option.map_id']
  · rw [if_pos rfl]
    exact hr hf k

/-- What comes before a move and touches nothing it is about. -/
theorem Moves.stay_trans {m'' : Manager} (hi : m'.ipToNodeID = m.ipToNodeID)
    (ha : m'.macToNodeID = m.macToNodeID) (hs : m'.macShared = m.macShared)
    (hw : m'.macActiveWindow = m.macActiveWindow)
    (hr : ∀ {α : Type} {f : Node → α}, Lasting f → ∀ k, m'.read f k = m.read f k)
    (h : Moves m' m'' oldID newID) : Moves m m'' oldID newID where
  ipTo a := by rw [h.ipTo, hi]
  macTo a := by rw [h.macTo, ha]
  shared := h.shared.trans hs
  window := h.window.trans hw
  read hf k := by rw [h.read hf]; simp only [hr hf]

/-- The nodes a move is not about, and the one it leads to when there was one. -/
theorem Moves.read_other (h : Moves m m' oldID newID) (hf : Lasting f) (ho : k ≠ oldID)
    (hn : k ≠ newID) : m'.read f k = m.read f k := by
  rw [h.read hf, if_neg ho, if_neg hn]
  exact ite_self _

theorem Moves.read_new {x : α} (h : Moves m m' oldID newID) (hf : Lasting f)
    (hx : m.read f newID = some x) : m'.read f newID = some x := by
  rw [h.read hf]
  split
  · exact hx
  · rename_i hne
    rw [if_neg (Ne.symm hne), if_pos rfl, hx]
    rfl

theorem merge_moves (hne : oldID ≠ newID) :
    Moves m (m.mergeNodeInto newID oldID hostname) oldID newID :=
  ⟨mergeNodeInto_ipToNodeID, mergeNodeInto_macToNodeID, rfl, rfl, fun hf k => by
    rw [if_neg hne]
    exact merge_read hf hne k⟩

/-- The id a node has once its MAC is its own: the MAC, unless it cannot be promoted. -/
def Manager.settledID (m : Manager) (nodeID mac : String) : String :=
  if m.Promotable nodeID then mac else nodeID

/-- An exclusive MAC takes the node it is anchored at along. -/
theorem promote_moves (hhost : isHostMAC mac) (hs : m.isShared mac = false)
    (ha : m.macToNodeID.lookup mac = some nodeID) :
    Moves m (m.promoteNodeIDToMAC nodeID mac) nodeID (m.settledID nodeID mac) := by
  unfold settledID
  by_cases hp : m.Promotable nodeID
  · obtain ⟨hid, hnh, node, hl, hg⟩ := id hp
    have hne : nodeID ≠ mac := fun he => hnh (he ▸ hhost)
    have hpr : m.Promotes nodeID mac := ⟨hid, hne, hs, hhost, hnh, node, hl, hg⟩
    have hmerge : Moves m (m.mergeNodeInto mac nodeID (promotedHostname node nodeID)) nodeID mac :=
      merge_moves hne
    rw [if_pos hp, promoteNodeIDToMAC_eq hpr hl]
    refine ⟨hmerge.ipTo, fun a => ?_, rfl, rfl, fun hf k => (Eq.trans ?_ (hmerge.read hf k))⟩
    · dsimp only
      rw [KeyedMap.lookup_insert_eq]
      split
      · rename_i he
        rw [he, ha]
        exact congrArg some (repoint_old mac nodeID).symm
      · exact hmerge.macTo a
    · unfold Manager.read
      dsimp only
      rw [KeyedMap.lookup_adjust]
      split
      · rename_i hk
        rw [hk, Option.map_map]
        refine Option.map_congr fun n _ => ?_
        exact (hf.rebuild _).trans (hf.named n _ _)
      · rfl
  · have hpr : ¬ m.Promotes nodeID mac := fun h => hp ⟨h.1, h.2.2.2.2.1, h.2.2.2.2.2⟩
    rw [if_neg hp, promoteNodeIDToMAC_eq_self hpr]
    exact Moves.stay rfl rfl rfl rfl (fun _ _ => rfl) nodeID

/-! ## Filing an endpoint -/

/-- The node an address was on, `id` when it was on none. -/
def Manager.previousID (m : Manager) (ip id : String) : String := (m.ipToNodeID.lookup ip).getD id

/-- The address's previous node moves to the one it is filed under. -/
theorem mergePrevious_moves (hlive : m.ipToNodeID.lookup ip ≠ some "") :
    Moves m (m.mergePrevious ip hostname nodeID) (m.previousID ip nodeID) nodeID := by
  have hclaim : ∀ {m' : Manager},
      m' = ({ m with dirty := true } : Manager).claimHostname ip hostname →
      m'.ipToNodeID = m.ipToNodeID ∧ m'.macToNodeID = m.macToNodeID ∧ m'.macShared = m.macShared
        ∧ m'.macActiveWindow = m.macActiveWindow ∧ m'.nodes = m.nodes := by
    rintro m' rfl
    unfold claimHostname
    split <;> exact ⟨rfl, rfl, rfl, rfl, rfl⟩
  unfold mergePrevious previousID
  dsimp only
  generalize hm : ({ m with dirty := true } : Manager).claimHostname ip hostname = claimed
  obtain ⟨hi, ha, hs, hw, hn⟩ := hclaim hm.symm
  have hr : ∀ {α : Type} {f : Node → α}, Lasting f → ∀ k, claimed.read f k = m.read f k := by
    intro α f _ k
    unfold Manager.read
    rw [hn]
  cases hl : m.ipToNodeID.lookup ip with
  | none =>
    rw [if_neg fun h => h.1 rfl]
    exact Moves.stay hi ha hs hw hr nodeID
  | some prev =>
    have hpe : prev ≠ "" := fun he => hlive (he ▸ hl)
    rw [Option.getD_some, Option.getD_some]
    by_cases hne : prev = nodeID
    · rw [if_neg fun h => h.2 hne, hne]
      exact Moves.stay hi ha hs hw hr nodeID
    · rw [if_pos ⟨hpe, hne⟩]
      exact Moves.stay_trans hi ha hs hw hr (merge_moves hne)

/-- `ip` is filed under `id`, its previous node `prev` is merged into it, and a packet counted. -/
structure Files (m m' : Manager) (ip prev id : String) (now : Int) : Prop where
  ipTo : ∀ a, m'.ipToNodeID.lookup a
    = if a = ip then some id else (m.ipToNodeID.lookup a).map (repoint id prev)
  macTo : ∀ a, m'.macToNodeID.lookup a = (m.macToNodeID.lookup a).map (repoint id prev)
  shared : m'.macShared = m.macShared
  window : m'.macActiveWindow = m.macActiveWindow
  group : ∀ k, m'.read Node.isGroup k
    = if k = id then
        some (((m.read Node.isGroup id).or (m.read Node.isGroup prev)).getD false
          || (groupAddressLabel ip).isSome)
      else if k = prev then none
      else m.read Node.isGroup k
  seen : ∀ k, m'.read Node.lastSeen k
    = if k = id then some now else if k = prev then none else m.read Node.lastSeen k

/-- What counting an endpoint writes. -/
theorem countEndpoint_files (m : Manager) (nodeID ip hostname : String) (bytes : Nat) (now : Int) :
    ∃ node, (m.countEndpoint nodeID ip hostname bytes now).nodes = m.nodes.insert nodeID node
      ∧ node.isGroup
          = ((m.read Node.isGroup nodeID).getD false || (groupAddressLabel ip).isSome)
      ∧ node.lastSeen = now := by
  unfold countEndpoint Manager.read
  dsimp only
  cases m.nodes.lookup nodeID with
  | none => exact ⟨_, rfl, (Bool.false_or _).symm, rfl⟩
  | some n =>
    refine ⟨_, rfl, ?_⟩
    unfold seeNode
    dsimp only [Option.map_some, Option.getD_some]
    cases hg : (groupAddressLabel ip).isSome with
    | false =>
      rw [Bool.or_false, if_neg Bool.false_ne_true]
      repeat' split
      all_goals exact ⟨rfl, rfl⟩
    | true =>
      rw [Bool.or_true, if_pos rfl]
      repeat' split
      all_goals exact ⟨rfl, rfl⟩

/-- **What filing an endpoint does to the tables and the nodes.** -/
theorem addOrUpdateNode_files (ip hostname : String) (bytes : Nat) (now : Int)
    (hlive : m.ipToNodeID.lookup ip ≠ some "") :
    let id := m.nodeIDFor ip (nodeHostname ip hostname)
    Files m (m.addOrUpdateNodeLocked ip hostname bytes now) ip (m.previousID ip id) id now := by
  dsimp only
  unfold addOrUpdateNodeLocked
  dsimp only
  generalize nodeHostname ip hostname = hostname
  generalize m.nodeIDFor ip hostname = id
  have hmove : Moves m (m.mergePrevious ip hostname id) (m.previousID ip id) id :=
    mergePrevious_moves hlive
  generalize m.mergePrevious ip hostname id = merged at hmove
  generalize m.previousID ip id = prev at hmove
  obtain ⟨node, hnodes, hgroup, hseen⟩ := countEndpoint_files merged id ip hostname bytes now
  have htables : (merged.countEndpoint id ip hostname bytes now).macToNodeID = merged.macToNodeID
      ∧ (merged.countEndpoint id ip hostname bytes now).macShared = merged.macShared
      ∧ (merged.countEndpoint id ip hostname bytes now).macActiveWindow
        = merged.macActiveWindow := by
    unfold countEndpoint
    dsimp only
    split <;> exact ⟨rfl, rfl, rfl⟩
  have hread : ∀ {α : Type} (f : Node → α) (k : String),
      (merged.countEndpoint id ip hostname bytes now).read f k
        = if k = id then some (f node) else merged.read f k := by
    intro α f k
    unfold Manager.read
    rw [hnodes, KeyedMap.lookup_insert_eq]
    split <;> rfl
  refine ⟨fun a => ?_, fun a => ?_, htables.2.1.trans hmove.shared, htables.2.2.trans hmove.window,
    fun k => ?_, fun k => ?_⟩
  · rw [countEndpoint_ipToNodeID, KeyedMap.lookup_insert_eq, hmove.ipTo]
  · rw [htables.1, hmove.macTo]
  · have hown : merged.read Node.isGroup id
        = (m.read Node.isGroup id).or (m.read Node.isGroup prev) := by
      rw [hmove.read lasting_isGroup]
      split
      · rename_i he
        rw [he]
        cases m.read Node.isGroup id <;> rfl
      · rename_i he
        rw [if_neg (Ne.symm he), if_pos rfl]
    rw [hread, hgroup, hown]
    split
    · rfl
    · rename_i hk
      rw [hmove.read lasting_isGroup, if_neg hk]
      split
      · rename_i he
        rw [if_neg (he ▸ hk)]
      · rfl
  · rw [hread, hseen]
    split
    · rfl
    · rename_i hk
      rw [hmove.read lasting_lastSeen, if_neg hk]
      split
      · rename_i he
        rw [if_neg (he ▸ hk)]
      · rfl

/-- Filing one endpoint does not change which id the other is filed under. -/
theorem addOrUpdateNode_nodeIDFor (m : Manager) (ip hostname : String) (bytes : Nat) (now : Int)
    (x name : String) :
    (m.addOrUpdateNodeLocked ip hostname bytes now).nodeIDFor x name = m.nodeIDFor x name := by
  unfold nodeIDFor
  rw [addOrUpdateNode_hostnames]
  split
  · split
    · rename_i h
      rw [h.2.2]
      rfl
    · rfl
  · rfl

/-! ## Recording an exclusive MAC -/

/-- The node that speaks for a MAC, `id` when none does yet. -/
def Manager.anchorID (m : Manager) (mac id : String) : String := (m.macToNodeID.lookup mac).getD id

omit [RuneCase] in
theorem isShared_eq (h : m'.macShared = m.macShared) (mac : String) :
    m'.isShared mac = m.isShared mac := by
  unfold isShared
  rw [h]

omit [RuneCase] in
theorem promotable_read :
    m.Promotable k ↔ k ≠ "" ∧ ¬ isHostMAC k ∧ m.read Node.isGroup k = some false := by
  unfold Promotable Manager.read
  cases m.nodes.lookup k <;> simp

/-- **What recording an exclusive MAC does:** its anchor moves to the node, the node to its MAC. -/
theorem recordMAC_moves (hanchors : AnchorsLive m) (hhost : isHostMAC mac) (hid : nodeID ≠ "")
    (hbefore : m.isShared mac = false)
    (hafter : (m.recordMACLocked nodeID mac now).isShared mac = false)
    (hn : ∃ n, m.nodes.lookup nodeID = some n) :
    ∃ m₁, Moves (m.setAnchor (m.anchorID mac nodeID) mac) m₁ (m.anchorID mac nodeID) nodeID
      ∧ Moves m₁ (m.recordMACLocked nodeID mac now) nodeID (m.settledID nodeID mac) := by
  have hspec := macCase_spec m nodeID mac now
  obtain ⟨node, hn⟩ := hn
  have hread : ∀ {α : Type} {f : Node → α}, Lasting f → ∀ k,
      (m.noteMAC nodeID mac node).read f k = m.read f k := fun hf k => noteMAC_read hf hn k
  obtain ⟨hshared, hmacs, -, hwindow⟩ := noteMAC_tables m nodeID mac node
  have hips := (noteMAC_kept mac hn).ipTo
  -- the node is promoted as it is found: a note and a merge into it keep its kind
  have hpromote : ∀ m₁ : Manager, m₁.macShared = m.macShared →
      m₁.read Node.isGroup nodeID = m.read Node.isGroup nodeID →
      m₁.macToNodeID.lookup mac = some nodeID →
      Moves m₁ (m₁.promoteNodeIDToMAC nodeID mac) nodeID (m.settledID nodeID mac) := by
    intro m₁ hs hg ha
    have hsettled : m.settledID nodeID mac = m₁.settledID nodeID mac := by
      unfold settledID
      simp only [promotable_read, hg]
    rw [hsettled]
    exact promote_moves hhost ((isShared_eq hs mac).trans hbefore) ha
  rw [recordMACLocked_eq] at hafter ⊢
  rw [hn] at hafter ⊢
  dsimp only at hafter ⊢
  generalize m.noteMAC nodeID mac node = noted at hread hshared hmacs hwindow hips hafter ⊢
  cases hc : m.macCase nodeID mac now with
  | skip =>
    rw [hc] at hspec
    rcases hspec with h | h | h
    · exact absurd h hid
    · exact absurd hhost h
    · rw [hn] at h; cases h
  | note =>
    rw [hc] at hspec
    rw [hbefore] at hspec
    exact absurd hspec.2.2 (by decide)
  | share =>
    rw [hc] at hafter
    dsimp only at hafter
    rw [isShared_demote] at hafter
    unfold isShared Manager.shareMAC at hafter
    rw [AList.lookup_insert] at hafter
    cases hafter
  | anchor =>
    rw [hc] at hspec
    have hnone : m.macToNodeID.lookup mac = none := by
      cases hl : m.macToNodeID.lookup mac with
      | none => rfl
      | some a =>
        obtain ⟨n, hla, -⟩ := hanchors.anchored mac a hl
        rw [(hspec.2.2.2 a hl).2] at hla
        cases hla
    have hself : m.anchorID mac nodeID = nodeID := by
      unfold anchorID
      rw [hnone]
      rfl
    rw [hself]
    have hips' : (noted.setAnchor nodeID mac).ipToNodeID = (m.setAnchor nodeID mac).ipToNodeID :=
      hips
    have hset : (noted.setAnchor nodeID mac).macToNodeID = (m.setAnchor nodeID mac).macToNodeID := by
      show noted.macToNodeID.insert mac nodeID = m.macToNodeID.insert mac nodeID
      rw [hmacs]
    have hstay : Moves (m.setAnchor nodeID mac) (noted.setAnchor nodeID mac) nodeID nodeID :=
      Moves.stay hips' hset hshared hwindow hread nodeID
    exact ⟨_, hstay, hpromote _ hshared (hread lasting_isGroup nodeID) (AList.lookup_insert _)⟩
  | confirm =>
    rw [hc] at hspec
    have hself : m.anchorID mac nodeID = nodeID := by
      unfold anchorID
      rw [hspec.2.2.2]
      rfl
    have hanchor : noted.macToNodeID.lookup mac = some nodeID := by rw [hmacs]; exact hspec.2.2.2
    have hstay : Moves m noted nodeID nodeID := Moves.stay hips hmacs hshared hwindow hread nodeID
    rw [hself]
    refine ⟨noted, ⟨fun a => ?_, fun a => ?_, hshared, hwindow, fun hf k => ?_⟩,
      hpromote _ hshared (hread lasting_isGroup nodeID) hanchor⟩
    · exact hstay.ipTo a
    · show _ = ((m.macToNodeID.insert mac nodeID).lookup a).map _
      rw [KeyedMap.lookup_insert_eq]
      split
      · rename_i he
        rw [he, hanchor]
        exact congrArg some (repoint_self nodeID nodeID).symm
      · exact hstay.macTo a
    · exact hstay.read hf k
  | readdress a =>
    rw [hc] at hspec
    obtain ⟨-, -, -, hla, hane, -⟩ := hspec
    have hself : m.anchorID mac nodeID = a := by
      unfold anchorID
      rw [hla]
      rfl
    rw [hself]
    have hmove : Moves noted (noted.mergeNodeInto nodeID a node.hostname) a nodeID :=
      merge_moves hane
    refine ⟨(noted.mergeNodeInto nodeID a node.hostname).setAnchor nodeID mac,
      ⟨fun x => ?_, fun x => ?_, hshared, hwindow, fun hf k => ?_⟩,
      hpromote _ hshared ?_ (AList.lookup_insert _)⟩
    · show _ = (m.ipToNodeID.lookup x).map _
      rw [← hips]
      exact hmove.ipTo x
    · show ((noted.mergeNodeInto nodeID a node.hostname).macToNodeID.insert mac nodeID).lookup x
        = ((m.macToNodeID.insert mac a).lookup x).map _
      rw [KeyedMap.lookup_insert_eq, KeyedMap.lookup_insert_eq]
      split
      · exact congrArg some (repoint_old nodeID a).symm
      · rw [← hmacs]
        exact hmove.macTo x
    · have := hmove.read hf k
      simp only [hread hf] at this
      exact this
    · have := hmove.read lasting_isGroup nodeID
      rw [if_neg hane, if_neg hane.symm, if_pos rfl, hread lasting_isGroup,
        hread lasting_isGroup, read_eq hn] at this
      rw [read_eq hn]
      exact this

end Tables

end Etherchimp
