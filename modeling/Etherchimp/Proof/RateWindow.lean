import Etherchimp.Server.RateLimit

/-!
# What the limiter lets through in a window

A bucket bounds what it grants: the tokens that could be spent now rise with the
refill and pay for every allowed request. Dropping a bucket is the one step that
is not an update of it, since the client then starts over with a full one. That
costs nothing exactly when a bucket that is old enough to be dropped would have
been full anyway, which is when `maxAge` is long enough to refill it from empty.
-/

namespace Etherchimp

open RateLimiter

/-- In no run does a window of length `d` see more than `burst + rate * d` allowed requests. -/
def WindowBounded (config : RateLimitConfig) : Prop :=
  ∀ (calls : List Call) (ip : String) (t d : ℚ), Budget.Chronological Call.now calls → 0 ≤ d →
    ((allowed ip (newRateLimiter config) calls).countP
        (fun c => decide (t ≤ c.now ∧ c.now ≤ t + d)) : ℚ)
      ≤ config.burstSize + config.requestsPerSecond * d

/-! ## One bucket -/

theorem ClientBucket.refill_tokens (b : ClientBucket) (rate : ℚ) (burst : Int) (now : ℚ) :
    (b.refill rate burst now).tokens = min (b.tokens + (now - b.lastUpdate) * rate) burst := by
  unfold refill
  dsimp only
  split
  · rename_i h
    exact (min_eq_right h.le).symm
  · rename_i h
    exact (min_eq_left (not_lt.mp h)).symm

/-- A bucket as the limiter keeps it, at time `t`. -/
structure BucketAt (burst : Int) (t : ℚ) (b : ClientBucket) : Prop where
  nonneg : 0 ≤ b.tokens
  le_burst : b.tokens ≤ burst
  updated : b.lastUpdate ≤ t
  accessed : b.lastAccess = b.lastUpdate

theorem BucketAt.later {burst : Int} {t t' : ℚ} {b : ClientBucket} (h : BucketAt burst t b)
    (ht : t ≤ t') : BucketAt burst t' b :=
  { h with updated := h.updated.trans ht }

namespace RateLimiter

/-- The tokens a client could spend at `t`. One without a bucket could spend a full one. -/
def available (ip : String) (rl : RateLimiter) (t : ℚ) : ℚ :=
  match rl.clients.lookup ip with
  | some b => (b.refill rl.rate rl.burst t).tokens
  | none => rl.burst

theorem available_some {ip : String} {rl : RateLimiter} {b : ClientBucket}
    (hb : rl.clients.lookup ip = some b) (t : ℚ) :
    available ip rl t = min (b.tokens + (t - b.lastUpdate) * rl.rate) rl.burst := by
  unfold available
  rw [hb]
  exact b.refill_tokens rl.rate rl.burst t

theorem available_none {ip : String} {rl : RateLimiter} (hb : rl.clients.lookup ip = none)
    (t : ℚ) : available ip rl t = rl.burst := by
  unfold available
  rw [hb]

/-- A limiter of this configuration whose buckets were all written by time `t`. -/
structure AsOf (config : RateLimitConfig) (t : ℚ) (rl : RateLimiter) : Prop where
  rate : rl.rate = config.requestsPerSecond
  burst : rl.burst = config.burstSize
  maxAge : rl.maxAge = config.clientMaxAge
  buckets : ∀ ip b, rl.clients.lookup ip = some b → BucketAt config.burstSize t b

theorem newRateLimiter_asOf (config : RateLimitConfig) (t : ℚ) :
    AsOf config t (newRateLimiter config) where
  rate := rfl
  burst := rfl
  maxAge := rfl
  buckets := nofun

theorem AsOf.later {config : RateLimitConfig} {t t' : ℚ} {rl : RateLimiter}
    (h : AsOf config t rl) (ht : t ≤ t') : AsOf config t' rl :=
  { h with buckets := fun ip b hb => (h.buckets ip b hb).later ht }

/-! ## What each call does -/

/-- The bucket a request leaves, when `x` tokens were to be spent. -/
def spent (x : ℚ) (now : ℚ) : ClientBucket where
  tokens := x - Budget.charge (decide (1 ≤ x))
  lastUpdate := now
  lastAccess := now

/-- A request is allowed when there is a token to spend, and spends it. -/
theorem allow_eq {rl : RateLimiter} (hburst : 1 ≤ rl.burst) (now : ℚ) (ip : String) :
    rl.allow now ip = (decide (1 ≤ available ip rl now),
      { rl with clients := rl.clients.insert ip (spent (available ip rl now) now) }) := by
  have hone : (1 : ℚ) ≤ rl.burst := by exact_mod_cast hburst
  unfold allow spent
  cases hb : rl.clients.lookup ip with
  | none =>
    rw [available_none hb, decide_eq_true hone]
    rfl
  | some b =>
    have hav : available ip rl now = (b.refill rl.rate rl.burst now).tokens := by
      unfold available
      rw [hb]
    dsimp only
    rw [hav]
    by_cases h1 : 1 ≤ (b.refill rl.rate rl.burst now).tokens
    · rw [if_pos h1, decide_eq_true h1]
      rfl
    · rw [if_neg h1, decide_eq_false h1, Budget.charge, if_neg (by decide), sub_zero]
      rfl

theorem cleanup_lookup (rl : RateLimiter) (now : ℚ) (ip : String) :
    (rl.cleanup now).clients.lookup ip = if rl.stale now ip then none else rl.clients.lookup ip := by
  unfold cleanup
  rw [KeyedMap.lookup_filterKey]
  cases rl.stale now ip
  · rfl
  · rfl

/-! ## The level of a client -/

section Level

variable {config : RateLimitConfig} {t : ℚ} {rl : RateLimiter} {ip : String}

theorem AsOf.available_le (h : AsOf config t rl) : available ip rl t ≤ config.burstSize := by
  rw [← h.burst]
  cases hb : rl.clients.lookup ip with
  | none => exact (available_none hb t).le
  | some b =>
    rw [available_some hb]
    exact min_le_right _ _

variable (hrate : 0 ≤ config.requestsPerSecond) (hburst : 1 ≤ config.burstSize)
include hrate hburst

theorem AsOf.available_nonneg (h : AsOf config t rl) : 0 ≤ available ip rl t := by
  have hpos : (0 : ℚ) ≤ rl.burst := by
    rw [h.burst]
    exact_mod_cast (by omega : 0 ≤ config.burstSize)
  cases hb : rl.clients.lookup ip with
  | none => rw [available_none hb]; exact hpos
  | some b =>
    have hbucket := h.buckets ip b hb
    rw [available_some hb, h.rate]
    have hmore := mul_nonneg (sub_nonneg.mpr hbucket.updated) hrate
    exact le_min (add_nonneg hbucket.nonneg hmore) hpos

omit hburst in
theorem AsOf.available_rises (h : AsOf config t rl) {t' : ℚ} (ht : t ≤ t') :
    available ip rl t' ≤ available ip rl t + config.requestsPerSecond * (t' - t) := by
  have hmore := mul_nonneg hrate (sub_nonneg.mpr ht)
  cases hb : rl.clients.lookup ip with
  | none =>
    rw [available_none hb, available_none hb]
    linarith
  | some b =>
    rw [available_some hb, available_some hb, h.rate, ← min_add_add_right]
    have hleft : b.tokens + (t' - b.lastUpdate) * config.requestsPerSecond
        = b.tokens + (t - b.lastUpdate) * config.requestsPerSecond
          + config.requestsPerSecond * (t' - t) := by ring
    rw [hleft]
    exact min_le_min_left _ (by linarith)

/-- The bucket a request leaves is one the limiter may hold. -/
theorem AsOf.spent_bucket (h : AsOf config t rl) :
    BucketAt config.burstSize t (spent (available ip rl t) t) where
  nonneg := by
    have h0 : 0 ≤ available ip rl t := h.available_nonneg hrate hburst
    unfold spent Budget.charge
    dsimp only
    split
    · rename_i h1
      exact sub_nonneg.mpr (of_decide_eq_true h1)
    · rwa [sub_zero]
  le_burst := by
    have hle : available ip rl t ≤ config.burstSize := h.available_le
    have hc : (0 : ℚ) ≤ Budget.charge (decide (1 ≤ available ip rl t)) := by
      unfold Budget.charge
      split
      · exact zero_le_one
      · exact le_refl 0
    unfold spent
    dsimp only
    linarith
  updated := le_refl t
  accessed := rfl

theorem AsOf.call_kept {c : Call} (h : AsOf config c.now rl) :
    AsOf config c.now (rl.call c) := by
  cases c with
  | allow now ip =>
    have hb : 1 ≤ rl.burst := by rw [h.burst]; exact hburst
    show AsOf config now (rl.allow now ip).2
    rw [allow_eq hb]
    refine { h with buckets := ?_ }
    intro ip' b hl
    rw [KeyedMap.lookup_insert_eq] at hl
    split at hl
    · cases hl
      exact h.spent_bucket hrate hburst
    · exact h.buckets ip' b hl
  | cleanup now =>
    refine { h with buckets := ?_ }
    intro ip' b hl
    have hl' : (rl.cleanup now).clients.lookup ip' = some b := hl
    rw [cleanup_lookup] at hl'
    split at hl'
    · cases hl'
    · exact h.buckets ip' b hl'

omit hburst in
/-- A bucket that is long enough untouched to be dropped has refilled. -/
theorem AsOf.stale_full (h : AsOf config t rl)
    (hfull : config.burstSize ≤ config.requestsPerSecond * config.clientMaxAge)
    (hstale : rl.stale t ip = true) : available ip rl t = config.burstSize := by
  unfold stale at hstale
  cases hb : rl.clients.lookup ip with
  | none => rw [hb] at hstale; cases hstale
  | some b =>
    rw [hb] at hstale
    have hbucket := h.buckets ip b hb
    have hage : config.clientMaxAge < t - b.lastUpdate := by
      rw [← h.maxAge, ← hbucket.accessed]
      exact of_decide_eq_true hstale
    have hrefilled := mul_le_mul_of_nonneg_right hage.le hrate
    have h0 := hbucket.nonneg
    rw [available_some hb, h.rate, h.burst]
    exact min_eq_right (by linarith)

/-- A call takes from a client's level what it allows the client. -/
theorem AsOf.call_pays (hfull : config.burstSize ≤ config.requestsPerSecond * config.clientMaxAge)
    {c : Call} (h : AsOf config c.now rl) :
    available ip (rl.call c) c.now + Budget.charge (allows ip rl c) ≤ available ip rl c.now := by
  cases c with
  | allow now ip' =>
    have hb : 1 ≤ rl.burst := by rw [h.burst]; exact hburst
    show available ip (rl.allow now ip').2 now
      + Budget.charge (decide (ip' = ip) && (rl.allow now ip').1) ≤ available ip rl now
    rw [allow_eq hb]
    by_cases hip : ip' = ip
    · subst hip
      have hspent : BucketAt config.burstSize now (spent (available ip' rl now) now) :=
        h.spent_bucket hrate hburst
      rw [available_some (AList.lookup_insert rl.clients), decide_eq_true rfl, Bool.true_and]
      dsimp only [spent]
      rw [sub_self, zero_mul, add_zero, h.burst]
      have hmin := min_le_left
        (available ip' rl now - Budget.charge (decide (1 ≤ available ip' rl now)))
        (config.burstSize : ℚ)
      linarith
    · have hne : available ip { rl with
          clients := rl.clients.insert ip' (spent (available ip' rl now) now) } now
          = available ip rl now := by
        unfold available
        dsimp only
        rw [AList.lookup_insert_ne (Ne.symm hip)]
      rw [hne, decide_eq_false hip, Bool.false_and, Budget.charge, if_neg (by decide), add_zero]
  | cleanup now =>
    show available ip (rl.cleanup now) now + Budget.charge false ≤ available ip rl now
    rw [Budget.charge, if_neg (by decide), add_zero]
    by_cases hstale : rl.stale now ip = true
    · have hnone : (rl.cleanup now).clients.lookup ip = none := by
        rw [cleanup_lookup, if_pos hstale]
      have havail : available ip rl now = config.burstSize := h.stale_full hrate hfull hstale
      rw [available_none hnone, havail]
      exact_mod_cast h.burst.le
    · have hsame : (rl.cleanup now).clients.lookup ip = rl.clients.lookup ip := by
        rw [cleanup_lookup, if_neg hstale]
      unfold available
      rw [hsame]
      exact le_refl _

/-- The tokens a client could spend are a meter of what it is allowed. -/
def tokenMeter (hfull : config.burstSize ≤ config.requestsPerSecond * config.clientMaxAge)
    (ip : String) :
    Budget.Meter call (allows ip) Call.now (config.burstSize : ℚ) config.requestsPerSecond where
  level := available ip
  asOf := AsOf config
  rate_nonneg := hrate
  later := AsOf.later
  kept := AsOf.call_kept hrate hburst
  nonneg := AsOf.available_nonneg hrate hburst
  le_cap := AsOf.available_le
  rises h ht := AsOf.available_rises hrate h ht
  pays := AsOf.call_pays hrate hburst hfull

end Level

/-! ## Spending a whole bucket at once -/

section Requests

variable {config : RateLimitConfig} (hrate : 0 ≤ config.requestsPerSecond)
  (hburst : 1 ≤ config.burstSize) {now : ℚ} (ip : String)
include hrate hburst

theorem AsOf.requests_kept : ∀ (n : Nat) {rl : RateLimiter}, AsOf config now rl →
    AsOf config now ((List.replicate n (.allow now ip)).foldl call rl) := by
  intro n
  induction n with
  | zero => exact fun h => h
  | succ n ih =>
    intro rl h
    exact ih (@AsOf.call_kept config rl hrate hburst (.allow now ip) h)

/-- With `n` tokens to spend, `n` requests at one moment are all allowed. -/
theorem requests_allowed : ∀ (n : Nat) {rl : RateLimiter}, AsOf config now rl →
    available ip rl now = n →
    allowed ip rl (List.replicate n (.allow now ip)) = List.replicate n (.allow now ip) := by
  intro n
  induction n with
  | zero => exact fun _ _ => rfl
  | succ n ih =>
    intro rl h havail
    have hb : 1 ≤ rl.burst := by rw [h.burst]; exact hburst
    have hone : (1 : ℚ) ≤ (n + 1 : Nat) := by exact_mod_cast Nat.le_add_left 1 n
    have hkept : AsOf config now (rl.call (.allow now ip)) := h.requests_kept hrate hburst ip 1
    have hle : available ip rl now ≤ config.burstSize := h.available_le
    have hgrant : allows ip rl (.allow now ip) = true := by
      show (decide (ip = ip) && (rl.allow now ip).1) = true
      rw [allow_eq hb, havail, decide_eq_true rfl, Bool.true_and]
      exact decide_eq_true hone
    -- one token less is left for the requests after it
    have hleft : available ip (rl.call (.allow now ip)) now = n := by
      show available ip (rl.allow now ip).2 now = n
      rw [allow_eq hb, available_some (AList.lookup_insert rl.clients), havail]
      dsimp only [spent]
      rw [decide_eq_true hone, Budget.charge, if_pos rfl, sub_self, zero_mul, add_zero, h.burst]
      rw [havail] at hle
      push_cast at hle ⊢
      rw [add_sub_cancel_right]
      exact min_eq_left (by linarith)
    have hall := ih hkept hleft
    unfold allowed at hall ⊢
    rw [List.replicate_succ, Budget.granted_cons, if_pos hgrant, hall]

/-- The last request sets when the client was seen. -/
theorem requests_seen (n : Nat) {rl : RateLimiter} (h : AsOf config now rl) :
    ∃ b, ((List.replicate (n + 1) (.allow now ip)).foldl call rl).clients.lookup ip = some b ∧
      b.lastAccess = now := by
  have hn : AsOf config now ((List.replicate n (.allow now ip)).foldl call rl) :=
    h.requests_kept hrate hburst ip n
  rw [List.replicate_succ', List.foldl_append]
  generalize (List.replicate n (Call.allow now ip)).foldl call rl = rl' at hn ⊢
  have hb : 1 ≤ rl'.burst := by rw [hn.burst]; exact hburst
  refine ⟨spent (available ip rl' now) now, ?_, rfl⟩
  show (rl'.allow now ip).2.clients.lookup ip = _
  rw [allow_eq hb]
  exact AList.lookup_insert rl'.clients

end Requests

end RateLimiter

/-! ## The bound and when it fails -/

/-- A time at which an untouched bucket is dropped before it has refilled. -/
theorem early_drop {rate maxAge burst : ℚ} (hrate : 0 ≤ rate) (hburst : 0 < burst)
    (h : rate * maxAge < burst) : ∃ t, 0 ≤ t ∧ maxAge < t ∧ rate * t < burst := by
  rcases hrate.eq_or_lt with h0 | hpos
  · refine ⟨max maxAge 0 + 1, ?_, ?_, ?_⟩
    · exact add_nonneg (le_max_right _ _) zero_le_one
    · exact lt_of_le_of_lt (le_max_left _ _) (lt_add_one _)
    · rw [← h0, zero_mul]
      exact hburst
  · have hage : maxAge < burst / rate := by
      rw [lt_div_iff₀ hpos, mul_comm]
      exact h
    obtain ⟨t, hlow, hhigh⟩ := exists_between (max_lt hage (div_pos hburst hpos))
    refine ⟨t, ((le_max_right _ _).trans_lt hlow).le, (le_max_left _ _).trans_lt hlow, ?_⟩
    rw [lt_div_iff₀ hpos] at hhigh
    rwa [mul_comm]

/-- A client that spends its bucket, is dropped, and spends a new one. -/
def twoBursts (n : Nat) (t : ℚ) (ip : String) : List Call :=
  List.replicate n (.allow 0 ip) ++ .cleanup t :: List.replicate n (.allow t ip)

theorem twoBursts_chronological {t : ℚ} (ht : 0 ≤ t) (n : Nat) (ip : String) :
    Budget.Chronological Call.now (twoBursts n t ip) := by
  have hsecond : ∀ c ∈ List.replicate n (Call.allow t ip), c.now = t := by
    intro c hc
    rw [List.eq_of_mem_replicate hc]
    rfl
  unfold Budget.Chronological twoBursts
  rw [List.pairwise_append, List.pairwise_cons]
  refine ⟨List.pairwise_replicate_of_refl, ⟨?_, List.pairwise_replicate_of_refl⟩, ?_⟩
  · intro c hc
    exact (hsecond c hc).ge
  · intro c hc c' hc'
    rw [List.eq_of_mem_replicate hc]
    rcases List.mem_cons.mp hc' with rfl | hc'
    · exact ht
    · exact ht.trans (hsecond c' hc').ge

/-- Both bursts are allowed when the bucket is old enough to be dropped. -/
theorem twoBursts_allowed {config : RateLimitConfig} (hrate : 0 ≤ config.requestsPerSecond)
    {n : Nat} (hn : config.burstSize = n + 1) {t : ℚ} (ht : 0 ≤ t)
    (hage : config.clientMaxAge < t) (ip : String) :
    allowed ip (newRateLimiter config) (twoBursts (n + 1) t ip)
      = List.replicate (n + 1) (.allow 0 ip) ++ List.replicate (n + 1) (.allow t ip) := by
  have hburst : 1 ≤ config.burstSize := by omega
  have hfull : (config.burstSize : ℚ) = (n + 1 : Nat) := by rw [hn]; push_cast; rfl
  have hnew := newRateLimiter_asOf config 0
  obtain ⟨b, hb, hseen⟩ := requests_seen hrate hburst ip n hnew
  have hspent := hnew.requests_kept hrate hburst ip (n + 1)
  have hfirst := requests_allowed hrate hburst ip (n + 1) hnew
    ((available_none (AList.lookup_empty ip) 0).trans hfull)
  generalize hrl : (List.replicate (n + 1) (Call.allow 0 ip)).foldl call (newRateLimiter config)
    = rl at hb hspent
  -- the cleanup finds the bucket too old
  have hstale : rl.stale t ip = true := by
    unfold stale
    rw [hb]
    dsimp only
    rw [hspent.maxAge, hseen, sub_zero]
    exact decide_eq_true hage
  have hnone : (rl.cleanup t).clients.lookup ip = none := by
    rw [cleanup_lookup, if_pos hstale]
  have hclean : AsOf config t (rl.cleanup t) :=
    @AsOf.call_kept config rl hrate hburst (.cleanup t) (hspent.later ht)
  have hsecond := requests_allowed hrate hburst ip (n + 1) hclean
    ((available_none hnone t).trans (by rw [hclean.burst]; exact hfull))
  unfold allowed at hfirst hsecond ⊢
  rw [twoBursts, Budget.granted_append, hfirst, hrl, Budget.granted_cons,
    if_neg (by exact Bool.false_ne_true)]
  exact congrArg _ hsecond

/--
**The window bound holds exactly when a bucket refills within its age.**

A dropped client starts over with a full bucket. If `maxAge` is long enough for
the refill, the bucket that was dropped was full too; if not, a client can spend
one bucket, wait to be dropped, and spend another before the first would have
filled.
-/
theorem rateWindow_iff (config : RateLimitConfig) (hrate : 0 ≤ config.requestsPerSecond)
    (hburst : 1 ≤ config.burstSize) :
    WindowBounded config ↔
      config.burstSize ≤ config.requestsPerSecond * config.clientMaxAge := by
  refine ⟨fun hbound => ?_, fun hfull calls ip t d hcalls hd => ?_⟩
  · by_contra hshort
    obtain ⟨n, hn⟩ : ∃ n : Nat, config.burstSize = n + 1 :=
      ⟨(config.burstSize - 1).toNat, by omega⟩
    have hpos : (0 : ℚ) < config.burstSize := by exact_mod_cast hburst
    obtain ⟨t, ht, hage, hrefill⟩ := early_drop hrate hpos (not_le.mp hshort)
    have hcount := hbound (twoBursts (n + 1) t "") "" 0 t (twoBursts_chronological ht _ _) ht
    rw [twoBursts_allowed hrate hn ht hage, List.countP_append, List.countP_replicate,
      List.countP_replicate, if_pos (by simpa [Call.now] using ht),
      if_pos (by simpa [Call.now] using ht)] at hcount
    have hsize : (config.burstSize : ℚ) = n + 1 := by rw [hn]; push_cast; rfl
    push_cast at hcount
    linarith
  · have hcount := (tokenMeter hrate hburst hfull ip).granted_window_init
      (newRateLimiter_asOf config) hcalls (le_add_of_nonneg_right hd : t ≤ t + d)
    rw [add_sub_cancel_left] at hcount
    exact hcount

/-- The default configuration keeps a client for much longer than its refill takes. -/
theorem rateWindow_default : WindowBounded defaultRateLimitConfig :=
  (rateWindow_iff defaultRateLimitConfig (by decide) (by decide)).mpr (by
    rw [defaultRateLimitConfig]
    norm_num)

/-- Two tokens a burst, one a second, and clients forgotten after a second. -/
def forgetful : RateLimitConfig where
  requestsPerSecond := 1
  burstSize := 2
  cleanupInterval := 1
  clientMaxAge := 1

/-- Four requests in a second and a half, where three and a half were promised. -/
theorem rateWindow_forgetful : ¬ WindowBounded forgetful := by
  intro hbound
  have hlater : (0 : ℚ) ≤ 3 / 2 := by norm_num
  have hcount := hbound (twoBursts 2 (3 / 2) "10.0.0.1") "10.0.0.1" 0 (3 / 2)
    (twoBursts_chronological hlater 2 "10.0.0.1") hlater
  have hfour : (allowed "10.0.0.1" (newRateLimiter forgetful)
      (twoBursts 2 (3 / 2) "10.0.0.1")).countP
      (fun c => decide (0 ≤ c.now ∧ c.now ≤ 0 + 3 / 2)) = 4 := by decide +kernel
  rw [hfour, forgetful] at hcount
  norm_num at hcount

end Etherchimp
