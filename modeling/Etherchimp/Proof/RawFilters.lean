import Etherchimp.Proof.RawTopology
import Etherchimp.Proof.SharedViews
import Etherchimp.Server.RawStream

/-!
# When a raw client is sent what another one filters

The topologies of one tick are kept under the joined names of the hidden protocols. A
name may contain a comma or be empty, so two different sets may have one key, and the
client that comes second is sent what was built for the first.

What a key keeps of a set is the runs between commas of its sorted names, the empty
set reading like the set of the empty name. Two sets are mistaken for each other
exactly when these are the same and the sets are not.
-/

namespace Etherchimp

open Panic RawTopo ViewConfig

/-! ## What a key keeps -/

/-- The names as the key shows them. -/
def hiddenWords (hidden : KeyedMap String Bool) : List String :=
  if trueKeys hidden = [] then [""] else trueKeys hidden

/-- The runs between commas of the sorted names. -/
def commaPieces (hidden : KeyedMap String Bool) : List (List Char) :=
  Fields.pieces ',' ((hiddenWords hidden).map String.toList)

/-- Two sets of names that differ and read the same. -/
def MistakenFor (a b : KeyedMap String Bool) : Prop :=
  commaPieces a = commaPieces b ∧ ¬ SameNames a b

theorem intercalate_join (l : List Char) (ls : List (List Char)) :
    [','].intercalate (l :: ls) = Fields.join ',' l ls := by
  unfold Fields.join
  induction ls generalizing l with
  | nil => simp
  | cons m ls ih =>
    rw [List.intercalate_cons_cons, ih]
    simp

theorem hiddenKey_toList (hidden : KeyedMap String Bool) :
    (hiddenKey hidden).toList = [','].intercalate ((hiddenWords hidden).map String.toList) := by
  have hkey : hiddenKey hidden = ",".intercalate (trueKeys hidden) := by
    unfold hiddenKey
    split
    · rename_i hempty
      have hnone : trueKeys hidden = [] := by
        rw [trueKeys, hempty]
        rfl
      rw [hnone]
      rfl
    · rfl
  rw [hkey, String.toList_intercalate]
  unfold hiddenWords
  split
  · rename_i hnone
    rw [hnone]
    rfl
  · rfl

/-- **What a key determines**: the pieces, and nothing else. -/
theorem hiddenKey_eq_iff {a b : KeyedMap String Bool} :
    hiddenKey a = hiddenKey b ↔ commaPieces a = commaPieces b := by
  have hwords : ∀ h : KeyedMap String Bool, ∃ w ws, hiddenWords h = w :: ws := by
    intro h
    unfold hiddenWords
    split
    · exact ⟨"", [], rfl⟩
    · rename_i hne
      exact List.exists_cons_of_ne_nil hne
  obtain ⟨w, ws, ha⟩ := hwords a
  obtain ⟨v, vs, hb⟩ := hwords b
  rw [← String.toList_inj, hiddenKey_toList, hiddenKey_toList, commaPieces, commaPieces, ha, hb,
    List.map_cons, List.map_cons, intercalate_join, intercalate_join, Fields.join_eq_iff]

/-! ## What a build depends on -/

section Build

variable (F : Type) [FloatMath F] (go : Runtime)

/-- A build reads the set name by name. -/
theorem buildRawTopology_congr (raw : RawSnapshot) {a b : KeyedMap String Bool}
    (h : ∀ name, a.lookup name = b.lookup name) :
    buildRawTopology F go raw a 0 = buildRawTopology F go raw b 0 := by
  have hsee : ∀ nodes, see nodes a = see nodes b := by
    intro nodes
    funext s e
    unfold see
    rw [h]
  have hempty : ∀ {a b : KeyedMap String Bool}, (∀ name, a.lookup name = b.lookup name) →
      a.entries = [] → b.entries = [] := by
    intro a b h ha
    by_contra hb
    obtain ⟨⟨k, on⟩, l, hl⟩ := List.exists_cons_of_ne_nil hb
    have hmem : b.lookup k = some on :=
      (KeyedMap.mem_entries_iff b k on).mp (hl ▸ List.mem_cons_self)
    have hnone := (KeyedMap.mem_entries_iff a k on).mpr ((h k).trans hmem)
    rw [ha] at hnone
    cases hnone
  have hiff : a.entries = [] ↔ b.entries = [] := ⟨hempty h, hempty fun k => (h k).symm⟩
  unfold buildRawTopology
  simp only [hsee, hiff]

/-- Two nodes and an edge of the protocol. -/
def oneEdge (name : String) : RawSnapshot where
  nodes := [LayoutEngine.quiet "a", LayoutEngine.quiet "b"]
  edges := [{
    id := "a<->b"
    fromID := "a"
    toID := "b"
    protocol := { name := name }
    packetCount := 1
    byteCount := 1
    lastSeen := 0 }]

theorem oneEdge_spec (name : String) (hidden : KeyedMap String Bool) :
    Ends (buildRawTopology F go (oneEdge name) hidden 0) fun t =>
      t.ends = [] ↔ hidden.lookup name = some true := by
  obtain ⟨t, ht, hof, hread⟩ := buildRawTopology_spec F go (oneEdge name) hidden 0
  refine ⟨t, ht, ?_⟩
  have hlen : t.ids.length ≤ 2 :=
    (List.Nodup.subperm hof.wellFormed.nodup fun id hid => hof.known id hid).length_le
  have hends : t.ends = (keptEdges (oneEdge name) hidden t.ids).map
      fun e => (some e.fromID, some e.toID) := hread (by omega)
  dsimp only
  rw [hends, List.map_eq_nil_iff, keptEdges, List.filter_eq_nil_iff]
  constructor
  · intro h
    by_contra hh
    have hin := hof.uncut (by simp [oneEdge, rawCap, defaultRawMaxNodes]) _ List.mem_cons_self hh (by simp [oneEdge, LayoutEngine.quiet])
      (by simp [oneEdge, LayoutEngine.quiet])
    exact h _ List.mem_cons_self (decide_eq_true ⟨hh, hin⟩)
  · intro hh e he
    rw [oneEdge, List.mem_singleton] at he
    subst he
    simp [hh]

end Build

/-! ## Filters as clients send them -/

/-- A set of names sent by a client: listed names are on, and no name is off. -/
theorem lookup_nameSet (names : List String) (name : String) :
    (nameSet names).lookup name = if name ∈ names then some true else none := by
  unfold nameSet
  induction names using List.reverseRecOn with
  | nil => rfl
  | append_singleton names n ih =>
    rw [List.foldl_append, List.foldl_cons, List.foldl_nil, KeyedMap.lookup_insert_eq, ih]
    by_cases hn : name = n
    · simp [hn]
    · simp [hn]

theorem nameSet_congr {a b : List String} (h : SameNames (nameSet a) (nameSet b)) (name : String) :
    (nameSet a).lookup name = (nameSet b).lookup name := by
  have hname := h name
  rw [lookup_nameSet, lookup_nameSet] at hname ⊢
  by_cases ha : name ∈ a <;> by_cases hb : name ∈ b <;> simp [ha, hb] at hname ⊢

/-! ## One tick -/

section Tick

variable {F : Type} [FloatMath F] (go : Runtime)

/-- The client whose topology a client is sent: the first with its key. -/
def leader (clients : List (Client F)) (c : Client F) : Client F :=
  (clients.find? fun d => hiddenKey d.cfg.hidden = hiddenKey c.cfg.hidden).getD c

omit [FloatMath F] in
theorem leader_key (clients : List (Client F)) (c : Client F) :
    hiddenKey (leader clients c).cfg.hidden = hiddenKey c.cfg.hidden := by
  unfold leader
  cases hfind : clients.find? fun d => hiddenKey d.cfg.hidden = hiddenKey c.cfg.hidden with
  | none => rfl
  | some d => simpa using List.find?_some hfind

omit [FloatMath F] in
theorem leader_mem {clients : List (Client F)} {c : Client F} (hc : c ∈ clients) :
    leader clients c ∈ clients := by
  unfold leader
  cases hfind : clients.find? fun d => hiddenKey d.cfg.hidden = hiddenKey c.cfg.hidden with
  | none => exact hc
  | some d => exact List.mem_of_find?_eq_some hfind

omit [FloatMath F] in
/-- Clients of one key have one leader. -/
theorem leader_congr {clients : List (Client F)} {c c' : Client F} (hc : c ∈ clients)
    (h : hiddenKey c.cfg.hidden = hiddenKey c'.cfg.hidden) :
    leader clients c = leader clients c' := by
  unfold leader
  rw [h]
  cases hfind : clients.find? fun d => hiddenKey d.cfg.hidden = hiddenKey c'.cfg.hidden with
  | none => exact absurd (decide_eq_true h) (List.find?_eq_none.mp hfind c hc)
  | some d => rfl

/-- **What one tick sends**: to each client the topology built for its leader. -/
theorem rawTopologies_eq {raw : RawSnapshot} {T : KeyedMap String Bool → RawTopology}
    (hT : ∀ hidden, buildRawTopology F go raw hidden 0 = .ok (T hidden)) (clients : List (Client F))
    (seen : List (Client F)) (cache : KeyedMap String RawTopology)
    (hcache : ∀ key, cache.lookup key
      = (seen.find? fun d => hiddenKey d.cfg.hidden = key).map fun d => T d.cfg.hidden) :
    rawTopologies go raw cache clients
      = .ok (clients.map fun c => T (leader (seen ++ clients) c).cfg.hidden) := by
  induction clients generalizing seen cache with
  | nil => rfl
  | cons c clients ih =>
    have hsplit : seen ++ c :: clients = seen ++ [c] ++ clients := by
      rw [List.append_assoc, List.singleton_append]
    unfold rawTopologies rawTopology
    dsimp only [Client.snapshotCfg]
    rw [hcache]
    cases hfind : seen.find? fun d => hiddenKey d.cfg.hidden = hiddenKey c.cfg.hidden with
    | some d =>
      have hleader : leader (seen ++ c :: clients) c = d := by
        unfold leader
        rw [List.find?_append, hfind]
        rfl
      have hnext : ∀ key, cache.lookup key
          = ((seen ++ [c]).find? fun d => hiddenKey d.cfg.hidden = key).map fun d => T d.cfg.hidden := by
        intro key
        rw [hcache, List.find?_append]
        by_cases hkey : hiddenKey c.cfg.hidden = key
        · subst hkey
          rw [hfind]
          rfl
        · rw [List.find?_cons_of_neg (by simpa using hkey), List.find?_nil, Option.or_none]
      rw [Option.map_some, List.map_cons, hleader, hsplit]
      dsimp only
      rw [pure_bind]
      dsimp only
      rw [ih (seen ++ [c]) cache hnext]
      rfl
    | none =>
      have hleader : leader (seen ++ c :: clients) c = c := by
        unfold leader
        rw [List.find?_append, hfind, List.find?_cons_of_pos (by simp)]
        rfl
      have hnext : ∀ key, (cache.insert (hiddenKey c.cfg.hidden) (T c.cfg.hidden)).lookup key
          = ((seen ++ [c]).find? fun d => hiddenKey d.cfg.hidden = key).map fun d => T d.cfg.hidden := by
        intro key
        rw [KeyedMap.lookup_insert_eq, hcache, List.find?_append]
        by_cases hkey : key = hiddenKey c.cfg.hidden
        · subst hkey
          rw [hfind, if_pos rfl, List.find?_cons_of_pos (by simp)]
          rfl
        · rw [if_neg hkey, List.find?_cons_of_neg (by simpa using Ne.symm hkey), List.find?_nil,
            Option.or_none]
      rw [Option.map_none, List.map_cons, hleader, hsplit]
      dsimp only
      rw [hT]
      simp only [bind_assoc, pure_bind]
      rw [ok_bind, ih (seen ++ [c]) _ hnext]
      rfl

variable (F) in
/-- The topology a build makes. -/
theorem exists_topology : ∃ T : RawSnapshot → KeyedMap String Bool → RawTopology,
    ∀ raw hidden, buildRawTopology F go raw hidden 0 = .ok (T raw hidden) := by
  have hbuild : ∀ raw hidden, ∃ t, buildRawTopology F go raw hidden 0 = .ok t := fun raw hidden =>
    (buildRawTopology_spec F go raw hidden 0).runs
  choose T hT using hbuild
  exact ⟨T, hT⟩

/-- Every client of a tick is sent the topology of its own set. -/
def SentOwn (clients : List (Client F)) : Prop :=
  ∀ raw, rawTopologies go raw ∅ clients
    = clients.mapM fun c => buildRawTopology F go raw c.cfg.hidden 0

theorem sentOwn_iff_leader {T : RawSnapshot → KeyedMap String Bool → RawTopology}
    (hT : ∀ raw hidden, buildRawTopology F go raw hidden 0 = .ok (T raw hidden))
    (clients : List (Client F)) :
    SentOwn go clients
      ↔ ∀ c ∈ clients, ∀ raw, T raw (leader clients c).cfg.hidden = T raw c.cfg.hidden := by
  have hsent : ∀ raw, rawTopologies go raw ∅ clients
      = .ok (clients.map fun c => T raw (leader clients c).cfg.hidden) :=
    fun raw => rawTopologies_eq go (hT raw) clients [] ∅ fun _ => rfl
  have hown : ∀ raw (cs : List (Client F)),
      (cs.mapM fun c => buildRawTopology F go raw c.cfg.hidden 0)
        = .ok (cs.map fun c => T raw c.cfg.hidden) := by
    intro raw cs
    induction cs with
    | nil => rfl
    | cons c cs ih =>
      rw [List.mapM_cons, hT, ih]
      rfl
  unfold SentOwn
  simp only [hsent, hown, Except.ok.injEq, List.map_inj_left]
  exact ⟨fun h c hc raw => h raw c hc, fun h raw c hc => h c hc raw⟩

/-- A hidden protocol shows in the snapshot of one edge. -/
theorem sameNames_of_topology {T : RawSnapshot → KeyedMap String Bool → RawTopology}
    (hT : ∀ raw hidden, buildRawTopology F go raw hidden 0 = .ok (T raw hidden))
    {a b : KeyedMap String Bool} (h : ∀ raw, T raw a = T raw b) : SameNames a b := by
  intro name
  obtain ⟨t, ht, hta⟩ := oneEdge_spec F go name a
  obtain ⟨t', ht', htb⟩ := oneEdge_spec F go name b
  have heq : t = t' := by
    rw [hT] at ht ht'
    rw [← Except.ok.inj ht, ← Except.ok.inj ht', h]
  subst heq
  exact hta.symm.trans htb

/-- Of two clients that are mistaken for each other one is sent the other's filter. -/
theorem not_sentOwn {clients : List (Client F)} {c c' : Client F} (hc : c ∈ clients)
    (hc' : c' ∈ clients) (h : MistakenFor c.cfg.hidden c'.cfg.hidden) : ¬ SentOwn go clients := by
  intro hown
  obtain ⟨T, hT⟩ := exists_topology F go
  rw [sentOwn_iff_leader go hT] at hown
  refine h.2 (sameNames_of_topology go hT fun raw => ?_)
  rw [← hown c hc raw, leader_congr hc (hiddenKey_eq_iff.mpr h.1), hown c' hc' raw]

end Tick

/-- Clients with the filters they asked for last. -/
def filtered {F : Type} (asked : List (Client F × List String)) : List (Client F) :=
  asked.map fun a => a.1.applyControl (.setFilters a.2)

theorem mem_filtered {F : Type} {asked : List (Client F × List String)} {c : Client F}
    (hc : c ∈ filtered asked) : ∃ names, c.cfg.hidden = nameSet names := by
  obtain ⟨a, -, rfl⟩ := List.mem_map.mp hc
  exact ⟨a.2, rfl⟩

/--
**When every raw client is sent its own filter**: in every tick and for every snapshot,
exactly when no two of the clients' sets are mistaken for each other.
-/
theorem rawTopologies_own_iff {F : Type} [FloatMath F] (go : Runtime)
    (asked : List (Client F × List String)) :
    (∀ raw, rawTopologies go raw ∅ (filtered asked)
        = (filtered asked).mapM fun c => buildRawTopology F go raw c.cfg.hidden 0)
      ↔ ∀ c ∈ filtered asked, ∀ c' ∈ filtered asked, ¬ MistakenFor c.cfg.hidden c'.cfg.hidden := by
  change SentOwn go (filtered asked) ↔ _
  constructor
  · exact fun h c hc c' hc' hm => not_sentOwn go hc hc' hm h
  · intro h
    obtain ⟨T, hT⟩ := exists_topology F go
    refine (sentOwn_iff_leader go hT _).mpr fun c hc raw => ?_
    obtain ⟨a, ha⟩ := mem_filtered (leader_mem hc)
    obtain ⟨b, hb⟩ := mem_filtered hc
    have hnot := h _ (leader_mem hc) c hc
    have hsn : SameNames (leader (filtered asked) c).cfg.hidden c.cfg.hidden := by
      by_contra hne
      exact hnot ⟨hiddenKey_eq_iff.mp (leader_key _ c), hne⟩
    have hlookup : ∀ name, (leader (filtered asked) c).cfg.hidden.lookup name
        = c.cfg.hidden.lookup name := by
      rw [ha, hb] at hsn ⊢
      exact nameSet_congr hsn
    have hbuilds := buildRawTopology_congr F go raw hlookup
    rw [hT, hT] at hbuilds
    exact Except.ok.inj hbuilds

/-! ## Two clients with one key -/

/-- The one hides a protocol with a comma in its name, the other two protocols. -/
def commaClients : List (Client Int × List String) := [({}, ["TCP,UDP"]), ({}, ["TCP", "UDP"])]

theorem rawTopologies_commaClients :
    ¬ ∀ raw, rawTopologies .stable raw ∅ (filtered commaClients)
      = (filtered commaClients).mapM fun c => buildRawTopology Int .stable raw c.cfg.hidden 0 := by
  have hone : (({} : Client Int).applyControl (.setFilters ["TCP,UDP"])) ∈ filtered commaClients :=
    List.mem_cons_self
  have htwo : (({} : Client Int).applyControl (.setFilters ["TCP", "UDP"]))
      ∈ filtered commaClients := List.mem_cons_of_mem _ List.mem_cons_self
  refine not_sentOwn .stable hone htwo ⟨?_, fun hsame => ?_⟩
  · show commaPieces (nameSet ["TCP,UDP"]) = commaPieces (nameSet ["TCP", "UDP"])
    decide +kernel
  · have hname := (hsame "TCP").mpr (lookup_nameSet ["TCP", "UDP"] "TCP")
    have hnone := lookup_nameSet ["TCP,UDP"] "TCP"
    rw [if_neg (by simp)] at hnone
    exact absurd (hname.symm.trans hnone) (Option.some_ne_none true)

end Etherchimp
