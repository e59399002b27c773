import Etherchimp.Proof.PacketReaders
import Etherchimp.Proof.RingPolls
import Etherchimp.Browser.PacketTable

/-!
# What the packet table shows

Whatever the order in which polls, searches and scrubs are answered and arrive, the cache
holds packets under their own numbers, and up to the cursor it misses none of the last
`ringSize` since it was emptied, unless it is full of newer ones. A poll that has arrived
leaves the cursor no further back than what the server had when it answered.

The cursor is not set back when the cache is emptied, nor when the server restarts: what
it has passed by then is never polled for again. A restarted server gives out those
numbers anew, so the table goes on showing the packets of the server that is gone, and of
the running one only what a search or a click brings, until it has numbered more packets
than the cursor had come to.
-/

namespace Etherchimp

open PacketStore (idOf pageLimit)

/-! ## A page of the ring -/

/-- The ring has every number it has not dropped. -/
theorem PacketStore.HoldsLast.has {ps : PacketStore} {added : List PacketData}
    (h : ps.HoldsLast added) {i : Nat} (hi : 0 < i) (hle : i ≤ added.length)
    (hlast : added.length - ps.maxPackets < i) : ∃ p ∈ ps.getPackets, p.id = i := by
  have hlt : i - 1 < added.length := by omega
  refine ⟨added[i - 1], ?_, ?_⟩
  · rw [h.contents, List.mem_drop_iff_getElem]
    refine ⟨i - 1 - (added.length - ps.maxPackets), by omega, ?_⟩
    congr 1
    omega
  · have hid : (added.map (·.id))[i - 1]? = some i := by
      rw [h.ids, List.getElem?_range' hlt]
      congr 1
      omega
    rw [List.getElem?_map, List.getElem?_eq_getElem hlt] at hid
    exact Option.some.inj hid

/-- An answer to a poll brings everything recent behind the cursor it was asked with. -/
structure Answer.Caught (a : Answer) (since : Int) : Prop where
  newest : (a.numbered : Int) ≤ max since a.cursor
  reached : a.cursor ≤ max since a.numbered
  behind : ∀ p ∈ a.packets, since < p.id
  page : ∀ i : Nat, since < i → (i : Int) ≤ a.cursor → a.cursor - ringSize < i →
    ∃ p ∈ a.packets, p.id = i

theorem getPacketsSince_caught {ps : PacketStore} {added : List PacketData}
    (h : ps.HoldsLast added) (hsize : ps.maxPackets = ringSize) (since : Int) (hsince : 0 ≤ since) :
    Answer.Caught ⟨(ps.getPacketsSince since ringSize).1, (ps.getPacketsSince since ringSize).2,
      added.length⟩ since := by
  have hpoll : ps.getPacketsSince since ringSize
      = (Paging.page idOf (fun _ => true) since ringSize ps.getPackets,
        Paging.advance idOf since (Paging.page idOf (fun _ => true) since ringSize ps.getPackets)) :=
    ps.poll_eq (fun _ => true) since ringSize
  have hlen : ps.getPackets.length ≤ ringSize := by
    rw [h.contents, List.length_drop, hsize]
    omega
  -- the page is as long as the ring, so it leaves nothing out
  have hall : Paging.page idOf (fun _ => true) since ringSize ps.getPackets
      = Paging.behind idOf (fun _ => true) since ps.getPackets :=
    List.take_of_length_le ((List.length_filter_le ..).trans hlen)
  rw [hpoll, hall]
  generalize hpage : Paging.behind idOf (fun _ => true) since ps.getPackets = page
  have hmem : ∀ i : Nat, since < i → i ≤ added.length → added.length - ringSize < i →
      ∃ p ∈ page, p.id = i := by
    intro i hi hle hlast
    obtain ⟨p, hp, rfl⟩ := h.has (i := i) (by omega) hle (by rw [hsize]; exact hlast)
    exact ⟨p, hpage ▸ Paging.mem_behind.mpr ⟨hp, hi, rfl⟩, rfl⟩
  have hnewest : since < added.length → (added.length : Int) ≤ Paging.advance idOf since page := by
    intro hlt
    obtain ⟨p, hp, hid⟩ := hmem added.length hlt le_rfl (by have : 0 < ringSize := by decide
                                                            omega)
    rw [← hid]
    exact (Paging.key_le_advance hp : idOf p ≤ Paging.advance idOf since page)
  have hreached : Paging.advance idOf since page ≤ max since added.length := by
    have hcases : Paging.advance idOf since page = since
        ∨ ∃ p ∈ page, Paging.advance idOf since page = idOf p := Paging.advance_cases since page
    rcases hcases with hsame | ⟨p, hp, hat⟩
    · rw [hsame]
      exact le_max_left _ _
    · have hring := (Paging.mem_behind.mp (hpage ▸ hp)).1
      have hid : p.id < ps.nextID := h.id_lt hring
      have hnext := h.nextID
      rw [hat]
      exact le_max_of_le_right (show (p.id : Int) ≤ added.length by omega)
  refine ⟨?_, hreached, fun p hp => ?_, fun i hi hle hlast => ?_⟩
  · show (added.length : Int) ≤ max since (Paging.advance idOf since page)
    by_cases hlt : since < added.length
    · exact (hnewest hlt).trans (le_max_right _ _)
    · exact (not_lt.mp hlt).trans (le_max_left _ _)
  · have hp : p ∈ Paging.behind idOf (fun _ => true) since ps.getPackets := hpage.symm ▸ hp
    have hbehind : since < idOf p := (Paging.mem_behind.mp hp).2.1
    exact hbehind
  · have hle : (i : Int) ≤ Paging.advance idOf since page := hle
    have hlast : Paging.advance idOf since page - ringSize < i := hlast
    have := hnewest (by omega)
    exact hmem i hi (by omega) (by omega)

/-! ## The cache -/

section Cache

variable {cache : KeyedMap Nat PacketData} {k : Nat}

theorem covers_cachePacket (h : Newest.Covers maxCachedPackets cache k) (p : PacketData) :
    Newest.Covers maxCachedPackets (cachePacket cache p) k := by
  unfold cachePacket
  split
  · exact h
  · exact h.insert p.id p

/-- A packet that is passed over is in the cache already. -/
theorem covers_cachePacket_self (cache : KeyedMap Nat PacketData) (p : PacketData) :
    Newest.Covers maxCachedPackets (cachePacket cache p) p.id := by
  unfold cachePacket
  split
  · rename_i hsome
    exact .inl ((KeyedMap.mem_keys_iff _ _).mpr (Option.isSome_iff_exists.mp hsome))
  · exact Newest.covers_insert_self ..

/-- A fold that covers each packet it passes, and keeps what is covered, covers them all. -/
theorem covers_foldl {f : KeyedMap Nat PacketData → PacketData → KeyedMap Nat PacketData}
    (hkeep : ∀ {cache k} p, Newest.Covers maxCachedPackets cache k →
      Newest.Covers maxCachedPackets (f cache p) k)
    (hself : ∀ cache p, Newest.Covers maxCachedPackets (f cache p) p.id) (l : List PacketData)
    (h : Newest.Covers maxCachedPackets cache k ∨ ∃ p ∈ l, p.id = k) :
    Newest.Covers maxCachedPackets (l.foldl f cache) k := by
  induction l generalizing cache with
  | nil => exact h.resolve_right fun ⟨p, hp, _⟩ => nomatch hp
  | cons p l ih =>
    rw [List.foldl_cons]
    refine ih ?_
    rcases h with h | ⟨q, hq, rfl⟩
    · exact .inl (hkeep p h)
    · rcases List.mem_cons.mp hq with rfl | hq
      · exact .inl (hself cache q)
      · exact .inr ⟨q, hq, rfl⟩

theorem covers_update (cache : KeyedMap Nat PacketData) (l : List PacketData)
    (h : Newest.Covers maxCachedPackets cache k ∨ ∃ p ∈ l, p.id = k) :
    Newest.Covers maxCachedPackets (updatePacketCache cache l) k := by
  unfold updatePacketCache
  split
  · rename_i hnil
    refine h.resolve_right fun ⟨p, hp, _⟩ => ?_
    rw [hnil] at hp
    cases hp
  · exact (covers_foldl (fun p h => covers_cachePacket h p) covers_cachePacket_self l h).evict

theorem lookup_foldl_cachePacket {l : List PacketData} {p : PacketData}
    (h : (l.foldl cachePacket cache).lookup k = some p) :
    cache.lookup k = some p ∨ p ∈ l ∧ p.id = k := by
  induction l generalizing cache with
  | nil => exact .inl h
  | cons q l ih =>
    rw [List.foldl_cons] at h
    rcases ih h with h | ⟨hp, hid⟩
    · unfold cachePacket at h
      split at h
      · exact .inl h
      · rw [KeyedMap.lookup_insert_eq] at h
        split at h
        · rename_i hk
          cases h
          exact .inr ⟨List.mem_cons_self, hk.symm⟩
        · exact .inl h
    · exact .inr ⟨List.mem_cons_of_mem _ hp, hid⟩

theorem lookup_update {l : List PacketData} {p : PacketData}
    (h : (updatePacketCache cache l).lookup k = some p) :
    cache.lookup k = some p ∨ p ∈ l ∧ p.id = k := by
  unfold updatePacketCache at h
  split at h
  · exact .inl h
  · exact lookup_foldl_cachePacket (Newest.lookup_evict h)

theorem lookup_foldl_set {l : List PacketData} {p : PacketData}
    (h : (l.foldl (fun (cache : KeyedMap Nat PacketData) q => cache.insert q.id q) cache).lookup k
      = some p) : cache.lookup k = some p ∨ p ∈ l ∧ p.id = k := by
  induction l generalizing cache with
  | nil => exact .inl h
  | cons q l ih =>
    rw [List.foldl_cons] at h
    rcases ih h with h | ⟨hp, hid⟩
    · rw [KeyedMap.lookup_insert_eq] at h
      split at h
      · rename_i hk
        cases h
        exact .inr ⟨List.mem_cons_self, hk.symm⟩
      · exact .inl h
    · exact .inr ⟨List.mem_cons_of_mem _ hp, hid⟩

end Cache

namespace PagePackets

/-! ## The invariant -/

/-- Nothing recent up to `c` is missing since the cache was emptied and the server restarted. -/
def Covered (t : PagePackets) (c : Int) : Prop :=
  ∀ i : Nat, max t.origin t.floor < i → (i : Int) ≤ c → c - ringSize < i →
    Newest.Covers maxCachedPackets t.packetCache i

/--
Where a packet of the cache is from: a poll brought it, which asks for what is newer than
the cursor the server found when it restarted; or a search, a scrub, a server that is gone.
-/
def Known (t : PagePackets) (p : PacketData) : Prop :=
  (p ∈ t.numbered ∧ t.floor < p.id) ∨ p ∈ t.found ∨ p ∈ t.scrubbed ∨ p ∈ t.dead

/-- What a request on its way may count on. -/
structure Honest (t : PagePackets) (r : PacketRequest) : Prop where
  asked : ∀ since, r.ask = .poll since → t.floor ≤ since ∧ since ≤ t.packetCursor
  caught : ∀ since, r.ask = .poll since → ∀ a, r.answer = some a →
    a.Caught since ∧ a.numbered ≤ t.numbered.length
  known : (∀ seq, r.ask ≠ .scrub seq) → ∀ a, r.answer = some a → ∀ p ∈ a.packets, p ∈ t.numbered

structure Shown (t : PagePackets) : Prop where
  ring : t.ring.HoldsLast t.numbered
  size : t.ring.maxPackets = ringSize
  nonneg : 0 ≤ t.floor
  floor : t.floor ≤ t.packetCursor
  reached : t.packetCursor ≤ max t.floor t.numbered.length
  genuine : ∀ id p, t.packetCache.lookup id = some p → p.id = id ∧ t.Known p
  searched : ∀ p ∈ t.found, p ∈ t.numbered
  covered : t.Covered t.packetCursor
  caughtUp : (t.caughtUp : Int) ≤ t.packetCursor
  honest : ∀ r ∈ t.inFlight, t.Honest r

variable {t t' : PagePackets}

/-- A cache that only gains, seen from a cut no earlier, covers what it did. -/
theorem Covered.mono {c : Int} (h : t.Covered c)
    (hcut : max t.origin t.floor ≤ max t'.origin t'.floor)
    (hcache : ∀ k, Newest.Covers maxCachedPackets t.packetCache k →
      Newest.Covers maxCachedPackets t'.packetCache k) : t'.Covered c :=
  fun i hi hle hlast => hcache i (h i (hcut.trans_lt hi) hle hlast)

/-- Up to where the cache was emptied, or the server restarted, there is nothing to cover. -/
theorem covered_of_le {c : Int} (h : c ≤ max t.origin t.floor) : t.Covered c :=
  fun _ hi hle _ => absurd (hi.trans_le hle) (not_lt.mpr h)

theorem Honest.mono {r : PacketRequest} (h : t.Honest r) (hfloor : t'.floor = t.floor)
    (hcursor : t.packetCursor ≤ t'.packetCursor) {l : List PacketData}
    (hnumbered : t'.numbered = t.numbered ++ l) : t'.Honest r where
  asked since hr := ⟨hfloor ▸ (h.asked since hr).1, (h.asked since hr).2.trans hcursor⟩
  caught since hr a ha := by
    obtain ⟨hcaught, hle⟩ := h.caught since hr a ha
    refine ⟨hcaught, ?_⟩
    rw [hnumbered, List.length_append]
    omega
  known hr a ha p hp := by
    rw [hnumbered]
    exact List.mem_append_left _ (h.known hr a ha p hp)

/-- The same server, and no cursor set back. -/
theorem Honest.same {r : PacketRequest} (h : t.Honest r) (hfloor : t'.floor = t.floor)
    (hcursor : t.packetCursor ≤ t'.packetCursor) (hnumbered : t'.numbered = t.numbered) :
    t'.Honest r :=
  h.mono hfloor hcursor (l := []) (by rw [hnumbered, List.append_nil])

/-- A request that has no answer yet. -/
theorem honest_unanswered {ask : Ask}
    (hasked : ∀ since, ask = .poll since → t.floor ≤ since ∧ since ≤ t.packetCursor) :
    t.Honest { ask := ask } where
  asked := hasked
  caught _ _ _ ha := nomatch ha
  known _ _ ha := nomatch ha

/-- A request is sent. -/
theorem Shown.ask (h : t.Shown) {a : Ask}
    (hasked : ∀ since, a = .poll since → t.floor ≤ since ∧ since ≤ t.packetCursor) :
    (t.ask a).Shown where
  ring := h.ring
  size := h.size
  nonneg := h.nonneg
  floor := h.floor
  reached := h.reached
  genuine := h.genuine
  searched := h.searched
  covered := h.covered
  caughtUp := h.caughtUp
  honest r hr := by
    refine Honest.same ?_ rfl le_rfl rfl (t := t)
    rcases List.mem_append.mp hr with hr | hr
    · exact h.honest r hr
    · rw [List.mem_singleton.mp hr]
      exact honest_unanswered hasked

/-- The numbers of the searches are for the page alone. -/
theorem Shown.renumbered (h : t.Shown) (seq seq' : Nat) :
    Shown { t with payloadSearchId := seq, replayRequestSeq := seq' } :=
  ⟨h.ring, h.size, h.nonneg, h.floor, h.reached, h.genuine, h.searched, h.covered, h.caughtUp,
    fun r hr => (h.honest r hr).same rfl le_rfl rfl⟩

theorem Shown.drop (h : t.Shown) (i : Nat) : Shown { t with inFlight := t.inFlight.eraseIdx i } where
  ring := h.ring
  size := h.size
  nonneg := h.nonneg
  floor := h.floor
  reached := h.reached
  genuine := h.genuine
  searched := h.searched
  covered := h.covered
  caughtUp := h.caughtUp
  honest r hr := (h.honest r (List.mem_of_mem_eraseIdx hr)).same rfl le_rfl rfl

/-- What a search found is set in the cache. -/
theorem Shown.keepFound (h : t.Shown) {l : List PacketData} (hl : ∀ p ∈ l, p ∈ t.numbered) :
    (t.keepFound l).Shown where
  ring := h.ring
  size := h.size
  nonneg := h.nonneg
  floor := h.floor
  reached := h.reached
  genuine id p hp := by
    rcases lookup_foldl_set hp with hp | ⟨hp, hid⟩
    · obtain ⟨hid, hknown⟩ := h.genuine id p hp
      exact ⟨hid, hknown.imp_right (Or.imp_left (List.mem_append_left _))⟩
    · exact ⟨hid, .inr (.inl (List.mem_append_right _ hp))⟩
  searched p hp := by
    rcases List.mem_append.mp hp with hp | hp
    · exact h.searched p hp
    · exact hl p hp
  covered := h.covered.mono le_rfl fun k hk => covers_foldl (fun p h => h.insert p.id p)
    (fun _ _ => Newest.covers_insert_self ..) _ (.inl hk)
  caughtUp := h.caughtUp
  honest r hr := (h.honest r hr).same rfl le_rfl rfl

/-- The page takes in the answer to a poll. -/
theorem Shown.polled (h : t.Shown) {since : Int} {a : Answer}
    (hr : t.Honest ⟨.poll since, some a⟩) : (t.take a (.poll since)).Shown := by
  obtain ⟨hcaught, hle⟩ := hr.caught since rfl a rfl
  obtain ⟨hfloor, hsince⟩ := hr.asked since rfl
  have hreached := hcaught.reached
  have hold := le_max_left t.packetCursor a.cursor
  have hnew := le_max_right t.packetCursor a.cursor
  refine ⟨h.ring, h.size, h.nonneg, h.floor.trans hold, ?_, fun id p hl => ?_, h.searched, ?_, ?_,
    fun r hr => (h.honest r hr).same rfl hold rfl⟩
  · refine max_le h.reached (hreached.trans (max_le (hsince.trans h.reached) ?_))
    exact le_max_of_le_right (by exact_mod_cast hle)
  · rcases lookup_update hl with hl | ⟨hp, hid⟩
    · exact h.genuine id p hl
    · exact ⟨hid, .inl ⟨hr.known nofun a rfl p hp, hfloor.trans_lt (hcaught.behind p hp)⟩⟩
  · -- either the cursor stays, or the page brought all that is recent behind the old one
    intro i hi hle hlast
    have hlast : max t.packetCursor a.cursor - ringSize < i := hlast
    by_cases hpassed : (i : Int) ≤ t.packetCursor
    · exact covers_update _ _ (.inl (h.covered i hi hpassed (by omega)))
    · have hbrought : (i : Int) ≤ a.cursor := (le_max_iff.mp hle).resolve_left hpassed
      exact covers_update _ _ (.inr (hcaught.page i (by omega) hbrought (by omega)))
  · show ((max t.caughtUp a.numbered : Nat) : Int) ≤ max t.packetCursor a.cursor
    have hnewest := hcaught.newest
    have hcaughtUp := h.caughtUp
    omega

/-- The page takes in an answer a request brought. -/
theorem Shown.take (h : t.Shown) {ask : Ask} {a : Answer} (hr : t.Honest ⟨ask, some a⟩) :
    (t.take a ask).Shown := by
  cases ask with
  | poll since => exact h.polled hr
  | payload seq text =>
    simp only [PagePackets.take]
    split
    · exact h
    · exact h.keepFound (hr.known nofun a rfl)
  | recent => exact h.keepFound (hr.known nofun a rfl)
  | scrub seq =>
    simp only [PagePackets.take]
    split
    · exact h
    · refine ⟨h.ring, h.size, h.nonneg, h.floor, h.reached, fun id p hl => ?_, h.searched, ?_,
        h.caughtUp, fun r hr => (h.honest r hr).same rfl le_rfl rfl⟩
      · rcases lookup_update hl with hl | ⟨hp, hid⟩
        · obtain ⟨hid, hknown⟩ := h.genuine id p hl
          exact ⟨hid, hknown.imp_right (Or.imp_right (Or.imp_left (List.mem_append_left _)))⟩
        · exact ⟨hid, .inr (.inr (.inl (List.mem_append_right _ hp)))⟩
      · exact h.covered.mono le_rfl fun k hk => covers_update _ _ (.inl hk)

/-- The cache is emptied, and covers what comes from here on. -/
theorem Shown.clear (h : t.Shown) (replaying : Bool) : (t.clear replaying).Shown where
  ring := h.ring
  size := h.size
  nonneg := h.nonneg
  floor := h.floor
  reached := h.reached
  genuine _ _ hl := nomatch hl
  searched := nofun
  covered := covered_of_le (le_max_left _ _)
  caughtUp := h.caughtUp
  honest r hr := (h.honest r hr).same rfl le_rfl rfl

section Steps

variable [RuneCase]

theorem Shown.packet (h : t.Shown) (now : Int) (pkt : PacketInfo) :
    (t.step (.packet now pkt)).Shown where
  ring := h.ring.addPacket now pkt
  size := (t.ring.addPacket_maxPackets now pkt).trans h.size
  nonneg := h.nonneg
  floor := h.floor
  reached := by
    refine h.reached.trans (max_le_max_left _ ?_)
    show (t.numbered.length : Int) ≤ (t.numbered ++ [_]).length
    rw [List.length_append]
    omega
  genuine id p hl := by
    obtain ⟨hid, hp⟩ := h.genuine id p hl
    exact ⟨hid, hp.imp_left fun hp => ⟨List.mem_append_left _ hp.1, hp.2⟩⟩
  searched p hp := List.mem_append_left _ (h.searched p hp)
  covered := h.covered
  caughtUp := h.caughtUp
  honest r hr := (h.honest r hr).mono rfl le_rfl rfl

/-- The server answers only with packets it has numbered, but for a file's. -/
theorem Shown.serve (h : t.Shown) {ask : Ask} (hask : ∀ seq, ask ≠ .scrub seq) {ips : String → Bool}
    {scrubbed : List PacketData} {a : Answer} (ha : t.serve ips scrubbed ask = .ok a) :
    ∀ p ∈ a.packets, p ∈ t.numbered := by
  have hmem : ∀ p ∈ t.ring.getPackets, p ∈ t.numbered := by
    intro p hp
    rw [h.ring.contents] at hp
    exact List.mem_of_mem_drop hp
  intro p hp
  cases ask with
  | poll since =>
    cases ha
    have hpoll := t.ring.poll_eq (fun _ => true) since ringSize
    have hp : p ∈ (t.ring.getPacketsSince since ringSize).1 := hp
    unfold PacketStore.getPacketsSince at hp
    rw [hpoll] at hp
    exact hmem p (Paging.mem_page hp).1
  | payload seq text =>
    simp only [PagePackets.serve, PacketStore.searchPayload_eq] at ha
    cases ha
    obtain ⟨m, hm, rfl⟩ := List.mem_map.mp hp
    obtain ⟨q, hq, hmatch⟩ := List.mem_filterMap.mp (List.mem_of_mem_take hm)
    obtain ⟨pos, -, rfl⟩ := Option.map_eq_some_iff.mp hmatch
    exact hmem q (List.mem_reverse.mp hq)
  | recent =>
    simp only [PagePackets.serve, PacketStore.mostRecentForIPs_eq] at ha
    cases ha
    exact hmem p (List.mem_reverse.mp (List.mem_of_find?_eq_some (Option.mem_toList.mp hp)))
  | scrub seq => exact absurd rfl (hask seq)

theorem Shown.respond (h : t.Shown) {r : PacketRequest} (hr : t.Honest r) (ips : String → Bool)
    (scrubbed : List PacketData) : t.Honest (t.respond ips scrubbed r) := by
  obtain ⟨ask, answer⟩ := r
  cases answer with
  | some a => exact hr
  | none =>
    have hserved : ∀ {a}, (t.respond ips scrubbed ⟨ask, none⟩).answer = some a →
        t.serve ips scrubbed ask = .ok a := by
      intro a ha
      have ha : (t.serve ips scrubbed ask).toOption = some a := ha
      generalize t.serve ips scrubbed ask = out at ha
      cases out with
      | error e => cases ha
      | ok b =>
        cases ha
        rfl
    refine ⟨hr.asked, fun since hask a ha => ?_, fun hask a ha => h.serve hask (hserved ha)⟩
    obtain rfl : ask = .poll since := hask
    cases hserved ha
    have hn : t.ring.nextID - 1 = t.numbered.length := by rw [h.ring.nextID]; rfl
    have hcaught := getPacketsSince_caught h.ring h.size since
      (h.nonneg.trans (hr.asked since rfl).1)
    rw [← hn] at hcaught
    exact ⟨hcaught, hn.le⟩

theorem Shown.answer (h : t.Shown) (i : Nat) (ips : String → Bool) (scrubbed : List PacketData) :
    (t.step (.answer i ips scrubbed)).Shown where
  ring := h.ring
  size := h.size
  nonneg := h.nonneg
  floor := h.floor
  reached := h.reached
  genuine := h.genuine
  searched := h.searched
  covered := h.covered
  caughtUp := h.caughtUp
  honest r hr := by
    refine Honest.same ?_ rfl le_rfl rfl (t := t)
    obtain ⟨j, hj, rfl⟩ := List.mem_iff_getElem.mp hr
    simp only [step, List.getElem_modify]
    rw [show (t.step (.answer i ips scrubbed)).inFlight = t.inFlight.modify i _ from rfl,
      List.length_modify] at hj
    have hold := h.honest _ (List.getElem_mem hj)
    split
    · exact h.respond hold ips scrubbed
    · exact hold

/-- What the cache has of the server becomes what it has of a dead one. -/
theorem Shown.restart (h : t.Shown) : (t.step .restart).Shown where
  ring := PacketStore.holdsLast_new ringSize (by decide)
  size := rfl
  nonneg := h.nonneg.trans h.floor
  floor := le_rfl
  reached := le_max_left _ _
  genuine id p hl := by
    obtain ⟨hid, hknown⟩ := h.genuine id p hl
    refine ⟨hid, .inr (.inr ?_)⟩
    rcases hknown with ⟨hp, -⟩ | hp | hp | hp
    · exact .inr (List.mem_append_right _ hp)
    · exact .inr (List.mem_append_right _ (h.searched p hp))
    · exact .inl hp
    · exact .inr (List.mem_append_left _ hp)
  searched := nofun
  covered := covered_of_le (le_max_right _ _)
  caughtUp := h.nonneg.trans h.floor
  honest := nofun

theorem Shown.step (h : t.Shown) (e : Event) : (t.step e).Shown := by
  cases e with
  | packet now pkt => exact h.packet now pkt
  | poll =>
    simp only [PagePackets.step]
    split
    · exact h
    · refine h.ask fun since hr => ?_
      cases hr
      exact ⟨h.floor, le_rfl⟩
  | payloadSearch text =>
    simp only [PagePackets.step]
    split
    · exact h
    · exact (h.renumbered _ _).ask (by intro _ hr; cases hr)
  | openHost => exact h.ask (by intro _ hr; cases hr)
  | scrub =>
    simp only [PagePackets.step]
    split
    · exact (h.renumbered _ _).ask (by intro _ hr; cases hr)
    · exact h
  | answer i ips scrubbed => exact h.answer i ips scrubbed
  | arrive i =>
    simp only [PagePackets.step]
    split
    · rename_i ask a hr
      have hmem := List.mem_of_getElem? hr
      exact (h.drop i).take ((h.honest _ hmem).same rfl le_rfl rfl)
    · exact h
  | lose i => exact h.drop i
  | enterReplay => exact h.clear true
  | exitReplay => exact h.clear false
  | restart => exact h.restart

end Steps

end PagePackets

end Etherchimp
