import Mathlib.Algebra.Order.Archimedean.Basic
import Mathlib.Algebra.Order.Field.Rat
import Mathlib.Data.List.AList
import Mathlib.Tactic.Linarith
import Mathlib.Tactic.NormNum
import Mathlib.Tactic.Positivity
import PpssppDfx.Python.Value
import PpssppDfx.Semantics.Unwinding

/-!
# The rate limiter

A `tools/call` request takes a token from the bucket of its session and tool. The middleware
reads the session from the top level of the request, where a call of a session tool does not
have it: the session id is one of the arguments. So sessions that call the same tool take
from the same bucket.

Token counts and times are rationals. A request carries the names of the tools that are
registered when it arrives.

## Main definitions

* `RateLimit.TokenBucketLimiter` — the buckets, with their pruning
* `RateLimit.bucketKey` — the bucket of a request
* `RateLimit.Contend` — the tools and sessions of two requests that count together
* `RateLimit.Isolated` — the decisions for one session do not depend on the others

## Main results

* `key_eq_key_iff` — requests share a bucket exactly when they contend
* `isolated_iff` — which requests of other sessions leave a session isolated
-/

set_option autoImplicit false

namespace RateLimit

open Python Semantics

/-- The session and the tool of a bucket. -/
abbrev BucketKey := String × String

/-- The tokens of a bucket, and when they were counted. -/
abbrev Bucket := ℚ × ℚ

def unknownName : String := "__unknown__"

def globalName : String := "__global__"

def pruneThreshold : ℕ := 100

def pruneIntervalS : ℚ := 60

def bucketTtlS : ℚ := 3600

/-! ## Keys -/

/-- `_extract_tool_name`. -/
def extractToolName : Value → Option String
  | .dict params =>
    match Dict.get? params "name" with
    | some (.str name) => some name
    | _ => none
  | _ => none

/-- `_extract_session_id`. -/
def extractSessionId : Value → Option String
  | .dict params =>
    match Dict.get? params "session_id" with
    | some (.str id) => if id = "" then none else some id
    | _ => none
  | _ => none

/-- `_extract_arguments`. -/
def extractArguments : Value → Dict
  | .dict params =>
    match Dict.get? params "arguments" with
    | some (.dict arguments) => arguments
    | _ => []
  | _ => []

/-- `_bucket_key`. -/
def bucketKey (registered : List String) (params : Value) : BucketKey :=
  match extractToolName params with
  | some tool =>
    -- a call that names no registered tool shares one bucket with all such calls
    if tool = "" ∨ tool ∉ registered then (unknownName, unknownName)
    else ((extractSessionId params).getD globalName, tool)
  | none => (unknownName, unknownName)

/-- The session that a call of a session tool is about. -/
def callSession (params : Value) : Option String :=
  match Dict.get? (extractArguments params) "session_id" with
  | some (.str id) => some id
  | _ => none

/-! ## Buckets -/

/-- A `TokenBucketLimiter`. -/
structure TokenBucketLimiter where
  rate : ℚ
  buckets : AList fun _ : BucketKey => Bucket
  lastPrune : ℚ

/-- What is done to the table before a request at a time takes from the bucket of its key. -/
abbrev Pruning := TokenBucketLimiter → ℚ → BucketKey → TokenBucketLimiter

/-- The tokens of a bucket at a time. -/
def tokensAt (rate : ℚ) (bucket : Bucket) (now : ℚ) : ℚ :=
  min rate (bucket.1 + (now - bucket.2) * rate / 60)

namespace TokenBucketLimiter

variable (l : TokenBucketLimiter)

/-- A limiter that was constructed at a time. -/
def init (rate now : ℚ) : TokenBucketLimiter := ⟨rate, ∅, now⟩

/-- The keys of the buckets that are pruned. -/
def stale (now : ℚ) (keep : BucketKey) : List BucketKey :=
  (l.buckets.entries.filter fun e =>
    decide (e.1 ≠ keep) && decide (bucketTtlS ≤ now - e.2.2)).map Sigma.fst

/-- `_prune`. -/
def prune (now : ℚ) (keep : BucketKey) : TokenBucketLimiter :=
  -- a small table is left alone, and a large one is gone through once a minute at most
  if l.buckets.entries.length ≤ pruneThreshold then l
  else if now - l.lastPrune < pruneIntervalS then l
  else
    { l with
      buckets := (l.stale now keep).foldl (fun buckets key => buckets.erase key) l.buckets
      lastPrune := now }

/-- The tokens that a request with this key finds. -/
def available (key : BucketKey) (now : ℚ) : ℚ :=
  tokensAt l.rate ((l.buckets.lookup key).getD (l.rate, now)) now

/-- `acquire`, with the message of the `RateLimitExceeded` that it raises, after some other
step in the place of `_prune`. -/
def acquireWith (pruning : Pruning) (l : TokenBucketLimiter) (now : ℚ) (key : BucketKey) :
    Option String × TokenBucketLimiter :=
  -- a rate of zero or less turns the limiter off
  if l.rate ≤ 0 then (none, l)
  else
    let pruned := pruning l now key
    let tokens := pruned.available key now
    if tokens < 1 then
      (some ("rate limit " ++ toString l.rate.floor ++ "/min exceeded for tool " ++
        strRepr key.2 ++ " (session " ++ strRepr key.1 ++ ")"), pruned)
    else (none, { pruned with buckets := pruned.buckets.insert key (tokens - 1, now) })

/-- `acquire`. -/
def acquire (now : ℚ) (key : BucketKey) : Option String × TokenBucketLimiter :=
  acquireWith prune l now key

end TokenBucketLimiter

/-! ## Requests -/

/-- A `tools/call` request and the tools that are registered when it arrives. -/
structure Request where
  registered : List String
  params : Value

/-- The bucket of a request. -/
def Request.key (r : Request) : BucketKey := bucketKey r.registered r.params

/-- A text at the top level of a request. -/
def Request.text (r : Request) (key : String) : Option String :=
  match r.params with
  | .dict params =>
    match Dict.get? params key with
    | some (.str text) => if text = "" then none else some text
    | _ => none
  | _ => none

/-- The registered tool that a request names. -/
def Request.tool (r : Request) : Option String :=
  (r.text "name").filter fun tool => tool ∈ r.registered

/-- The session id at the top level of a request, where a call of a session tool has none. -/
def Request.topSession (r : Request) : Option String :=
  (r.text "session_id").filter fun id => id ≠ globalName

/-- A request that names no registered tool, or only the names that stand for none. -/
def Request.Unattributed (r : Request) : Prop :=
  r.tool = none ∨ r.tool = some unknownName ∧ r.topSession = some unknownName

instance (r : Request) : Decidable r.Unattributed := inferInstanceAs (Decidable (_ ∨ _ ∧ _))

/-- Two requests name the same registered tool with the same session id at the top level, or
neither can be attributed. -/
def Contend (r r' : Request) : Prop :=
  r.Unattributed ∧ r'.Unattributed ∨ r.tool = r'.tool ∧ r.topSession = r'.topSession

instance (r r' : Request) : Decidable (Contend r r') :=
  inferInstanceAs (Decidable (_ ∧ _ ∨ _ ∧ _))

/-- A request and the time of its arrival. -/
structure Arrival where
  now : ℚ
  request : Request

/-- `rate_limit_middleware` on `tools/call` requests: whether the request is let through. -/
def rateLimitMiddleware : Responder TokenBucketLimiter Arrival Bool ℚ where
  respond l a :=
    let result := l.acquire a.now a.request.key
    (result.1.isNone, result.2)
  time := Arrival.now

/-- The request is one of the session. -/
def isFrom (session : String) (a : Arrival) : Bool :=
  callSession a.request.params == some session

/-- The decisions for the requests of one session, when the server starts with `start`. -/
def decisions (rate start : ℚ) (session : String) (history : List Arrival) : List Bool :=
  rateLimitMiddleware.answers (isFrom session) (.init rate start) history

/-- A history of requests in the order of their times, those of the session as given and those
of others among the allowed ones. -/
structure IsHistory (start : ℚ) (allowed : Request → Prop) (session : String)
    (own history : List Arrival) : Prop where
  timely : rateLimitMiddleware.Timely start history
  own_eq : history.filter (isFrom session) = own
  others : ∀ a ∈ history, isFrom session a = false → allowed a.request

/-- The decisions for the requests of a session are the same whatever allowed requests the
others make. -/
def Isolated (rate start : ℚ) (allowed : Request → Prop) (session : String)
    (own : List Arrival) : Prop :=
  ∀ history history', IsHistory start allowed session own history →
    IsHistory start allowed session own history' →
      decisions rate start session history = decisions rate start session history'

/-! ## Requests that share a bucket -/

section Keys

variable {r r' : Request}

theorem extractSessionId_params (r : Request) :
    extractSessionId r.params = r.text "session_id" := by
  unfold extractSessionId Request.text
  cases r.params <;> rfl

/-- A session that bears the name of no session is none. -/
theorem getD_topSession (r : Request) :
    r.topSession.getD globalName = (extractSessionId r.params).getD globalName := by
  rw [Request.topSession, extractSessionId_params]
  cases r.text "session_id" with
  | none => rfl
  | some id => by_cases hid : id = globalName <;> simp [Option.filter, hid]

theorem tool_eq (r : Request) :
    r.tool = (extractToolName r.params).filter fun tool => tool ≠ "" ∧ tool ∈ r.registered := by
  unfold Request.tool Request.text extractToolName
  cases r.params with
  | dict params =>
    dsimp only
    split
    next name hname => by_cases hempty : name = "" <;> simp [Option.filter, hempty]
    next => rfl
  | _ => rfl

theorem key_eq (r : Request) :
    r.key = match r.tool with
      | some tool => (r.topSession.getD globalName, tool)
      | none => (unknownName, unknownName) := by
  rw [tool_eq, getD_topSession, Request.key, bucketKey]
  cases extractToolName r.params with
  | none => rfl
  | some tool => by_cases htool : tool = "" <;> by_cases hknown : tool ∈ r.registered <;>
      simp [Option.filter, htool, hknown]

/-- The key says which session a request has at its top level. -/
theorem getD_topSession_inj :
    r.topSession.getD globalName = r'.topSession.getD globalName ↔
      r.topSession = r'.topSession := by
  have hne (r : Request) (id : String) (h : r.topSession = some id) : id ≠ globalName := by
    rw [Request.topSession] at h
    simpa using (Option.filter_eq_some_iff.mp h).2
  cases hsession : r.topSession with
  | none =>
    cases hsession' : r'.topSession with
    | none => simp
    | some id' => simp [(hne r' id' hsession').symm]
  | some id =>
    cases hsession' : r'.topSession with
    | none => simp [hne r id hsession]
    | some id' => simp

theorem key_eq_unknown_iff : r.key = (unknownName, unknownName) ↔ r.Unattributed := by
  have hglobal : globalName ≠ unknownName := by decide
  rw [key_eq, Request.Unattributed]
  cases r.tool with
  | none => simp
  | some tool => cases r.topSession <;> simp [hglobal, and_comm]

/-- The requests share a bucket exactly when they contend. -/
theorem key_eq_key_iff : r.key = r'.key ↔ Contend r r' := by
  have hsame (h : r.tool = r'.tool ∧ r.topSession = r'.topSession) : r.key = r'.key := by
    rw [key_eq, key_eq, h.1, h.2]
  constructor
  · intro hkey
    by_cases hunknown : r.Unattributed
    · exact Or.inl ⟨hunknown, key_eq_unknown_iff.mp (hkey ▸ key_eq_unknown_iff.mpr hunknown)⟩
    · have hunknown' : ¬ r'.Unattributed := fun h =>
        hunknown (key_eq_unknown_iff.mp (hkey.trans (key_eq_unknown_iff.mpr h)))
      obtain ⟨tool, htool⟩ := Option.ne_none_iff_exists'.mp fun h => hunknown (Or.inl h)
      obtain ⟨tool', htool'⟩ := Option.ne_none_iff_exists'.mp fun h => hunknown' (Or.inl h)
      rw [key_eq, key_eq, htool, htool', Prod.mk.injEq, getD_topSession_inj] at hkey
      exact Or.inr ⟨by rw [htool, htool', hkey.2], hkey.1⟩
  · rintro (⟨hunknown, hunknown'⟩ | hequal)
    · exact (key_eq_unknown_iff.mpr hunknown).trans (key_eq_unknown_iff.mpr hunknown').symm
    · exact hsame hequal

/-- Calls whose session id is among the arguments contend exactly when they name the same tool, or
no registered tool. -/
theorem contend_iff_tool (h : r.topSession = none) (h' : r'.topSession = none) :
    Contend r r' ↔ r.tool = r'.tool := by
  have hunattributed : r.Unattributed ↔ r.tool = none := by simp [Request.Unattributed, h]
  have hunattributed' : r'.Unattributed ↔ r'.tool = none := by simp [Request.Unattributed, h']
  rw [Contend, hunattributed, hunattributed', h, h']
  constructor
  · rintro (⟨hnone, hnone'⟩ | hequal)
    · rw [hnone, hnone']
    · exact hequal.1
  · exact fun hequal => Or.inr ⟨hequal, rfl⟩

end Keys

/-! ## Tokens -/

section Tokens

variable {rate now now' : ℚ} {bucket : Bucket}

theorem tokensAt_le : tokensAt rate bucket now ≤ rate := min_le_left _ _

/-- A minute refills a bucket. -/
theorem tokensAt_minute (hrate : 0 < rate) (htokens : 0 ≤ bucket.1)
    (hidle : 60 ≤ now - bucket.2) : tokensAt rate bucket now = rate := by
  apply min_eq_left
  have hrefill : 60 * rate ≤ (now - bucket.2) * rate :=
    mul_le_mul_of_nonneg_right hidle hrate.le
  linarith

end Tokens

namespace TokenBucketLimiter

variable {l : TokenBucketLimiter} {t now now' : ℚ} {key key' keep : BucketKey} {pruning : Pruning}

/-- No bucket is overdrawn or was counted later than `t`. -/
def Sound (t : ℚ) (l : TokenBucketLimiter) : Prop :=
  ∀ key bucket, l.buckets.lookup key = some bucket → 0 ≤ bucket.1 ∧ bucket.2 ≤ t

theorem Sound.of_le (h : l.Sound t) (hle : t ≤ now) : l.Sound now := fun key bucket hbucket =>
  ⟨(h key bucket hbucket).1, (h key bucket hbucket).2.trans hle⟩

theorem available_le : l.available key now ≤ l.rate := tokensAt_le

/-- A key without a bucket has all its tokens. -/
theorem available_of_lookup_none (hkey : l.buckets.lookup key = none) :
    l.available key now = l.rate := by
  rw [available, hkey, Option.getD_none, tokensAt]
  simp

/-! ### Pruning -/

theorem lookup_foldl_erase (keys : List BucketKey) (buckets : AList fun _ : BucketKey => Bucket) :
    (keys.foldl (fun buckets key => buckets.erase key) buckets).lookup key =
      if key ∈ keys then none else buckets.lookup key := by
  induction keys generalizing buckets with
  | nil => simp
  | cons k rest ih =>
    rw [List.foldl_cons, ih]
    by_cases hk : key = k
    · subst hk
      simp
    · simp [hk]

theorem mem_stale_iff : key ∈ l.stale now keep ↔
    key ≠ keep ∧ ∃ bucket, l.buckets.lookup key = some bucket ∧ bucketTtlS ≤ now - bucket.2 := by
  simp only [stale, List.mem_map, List.mem_filter, Bool.and_eq_true, decide_eq_true_eq]
  constructor
  · rintro ⟨⟨k, bucket⟩, ⟨hmem, hne, hidle⟩, rfl⟩
    exact ⟨hne, bucket, AList.mem_lookup_iff.mpr hmem, hidle⟩
  · rintro ⟨hne, bucket, hbucket, hidle⟩
    exact ⟨⟨key, bucket⟩, ⟨AList.mem_lookup_iff.mp hbucket, hne, hidle⟩, rfl⟩

@[simp] theorem prune_rate : (l.prune now keep).rate = l.rate := by
  unfold prune
  split
  · rfl
  · split <;> rfl

/-- Pruning removes stale buckets and changes no other. -/
theorem lookup_prune (l : TokenBucketLimiter) (now : ℚ) (keep key : BucketKey) :
    (l.prune now keep).buckets.lookup key = l.buckets.lookup key ∨
      (l.prune now keep).buckets.lookup key = none ∧
        ∃ bucket, l.buckets.lookup key = some bucket ∧ bucketTtlS ≤ now - bucket.2 := by
  unfold prune
  split
  · exact Or.inl rfl
  · split
    · exact Or.inl rfl
    · rw [lookup_foldl_erase]
      split
      · rename_i hstale
        exact Or.inr ⟨rfl, (mem_stale_iff.mp hstale).2⟩
      · exact Or.inl rfl

/-- A pruning drops buckets that have been idle for a minute, and changes nothing else that a
request can see. -/
structure DropsIdle (pruning : Pruning) : Prop where
  rate_eq : ∀ l now keep, (pruning l now keep).rate = l.rate
  lookup : ∀ l now keep key,
    (pruning l now keep).buckets.lookup key = l.buckets.lookup key ∨
      (pruning l now keep).buckets.lookup key = none ∧
        ∃ bucket, l.buckets.lookup key = some bucket ∧ 60 ≤ now - bucket.2

/-- Whatever its threshold and its interval are: an hour is longer than a minute. -/
theorem dropsIdle_prune : DropsIdle prune where
  rate_eq _ _ _ := prune_rate
  lookup l now keep key := by
    apply (lookup_prune l now keep key).imp_right
    rintro ⟨hnone, bucket, hbucket, hidle⟩
    have hminute : 60 ≤ bucketTtlS := by norm_num [bucketTtlS]
    exact ⟨hnone, bucket, hbucket, hminute.trans hidle⟩

theorem DropsIdle.sound (h : DropsIdle pruning) (hsound : l.Sound t) :
    (pruning l now keep).Sound t := by
  intro key bucket hbucket
  rcases h.lookup l now keep key with hsame | ⟨hnone, -⟩
  · exact hsound key bucket (hsame ▸ hbucket)
  · rw [hnone] at hbucket
    cases hbucket

/-- No later request finds another number of tokens. -/
theorem DropsIdle.available_eq (h : DropsIdle pruning) (hsound : l.Sound t) (hrate : 0 < l.rate)
    (hle : now ≤ now') : (pruning l now keep).available key now' = l.available key now' := by
  rcases h.lookup l now keep key with hsame | ⟨hnone, bucket, hbucket, hidle⟩
  · rw [available, available, hsame, h.rate_eq]
  -- the bucket is gone; it would have been refilled by now
  · have hidle' : 60 ≤ now' - bucket.2 := by linarith
    rw [available_of_lookup_none hnone, h.rate_eq, available, hbucket, Option.getD_some,
      tokensAt_minute hrate (hsound key bucket hbucket).1 hidle']

/-! ### Taking a token -/

theorem acquireWith_rate (h : DropsIdle pruning) :
    (l.acquireWith pruning now key).2.rate = l.rate := by
  unfold acquireWith
  split
  · rfl
  · dsimp only
    split <;> exact h.rate_eq l now key

/-- What an attempt raises is decided by the tokens that it finds. -/
theorem acquireWith_outcome (h : DropsIdle pruning) (hsound : l.Sound t) (hrate : 0 < l.rate) :
    (l.acquireWith pruning now key).1 =
      if l.available key now < 1 then
        some ("rate limit " ++ toString l.rate.floor ++ "/min exceeded for tool " ++
          strRepr key.2 ++ " (session " ++ strRepr key.1 ++ ")")
      else none := by
  rw [acquireWith, if_neg (not_le.mpr hrate)]
  dsimp only
  rw [h.available_eq hsound hrate (le_refl now)]
  split <;> rfl

/-- A token is taken from the bucket of an attempt that is accepted, and from no other. -/
theorem available_acquireWith (h : DropsIdle pruning) (hsound : l.Sound t) (hrate : 0 < l.rate)
    (hle : now ≤ now') :
    (l.acquireWith pruning now key).2.available key' now' =
      if 1 ≤ l.available key now ∧ key' = key then
        tokensAt l.rate (l.available key now - 1, now) now'
      else l.available key' now' := by
  have hpruned : (pruning l now key).available key now = l.available key now :=
    h.available_eq hsound hrate (le_refl now)
  rw [acquireWith, if_neg (not_le.mpr hrate)]
  dsimp only
  rw [hpruned]
  by_cases hfew : l.available key now < 1
  · rw [if_pos hfew, if_neg fun hboth => absurd hfew (not_lt.mpr hboth.1)]
    exact h.available_eq hsound hrate hle
  · rw [if_neg hfew]
    by_cases hkey : key' = key
    · subst hkey
      rw [if_pos ⟨not_lt.mp hfew, rfl⟩, available, AList.lookup_insert, Option.getD_some]
      dsimp only
      rw [h.rate_eq]
    · have hother : (pruning l now key).available key' now' = l.available key' now' :=
        h.available_eq hsound hrate hle
      rw [if_neg fun hboth => hkey hboth.2, ← hother]
      simp only [available, AList.lookup_insert_ne hkey]

theorem sound_acquireWith (h : DropsIdle pruning) (hsound : l.Sound t) (hle : t ≤ now) :
    (l.acquireWith pruning now key).2.Sound now := by
  have hpruned : (pruning l now key).Sound now := (h.sound hsound).of_le hle
  unfold acquireWith
  split
  · exact hsound.of_le hle
  · dsimp only
    split
    · exact hpruned
    · rename_i henough
      intro k bucket hbucket
      by_cases hk : k = key
      · subst hk
        rw [AList.lookup_insert] at hbucket
        obtain rfl := Option.some.inj hbucket
        exact ⟨by linarith, le_refl now⟩
      · rw [AList.lookup_insert_ne hk] at hbucket
        exact hpruned k bucket hbucket

theorem acquire_rate : (l.acquire now key).2.rate = l.rate := acquireWith_rate dropsIdle_prune

/-- A request is let through exactly when it finds a token. -/
theorem accepted_iff (h : l.Sound t) (hrate : 0 < l.rate) :
    (l.acquire now key).1.isNone = true ↔ 1 ≤ l.available key now := by
  rw [acquire, acquireWith_outcome dropsIdle_prune h hrate]
  split
  · rename_i hfew
    simpa using hfew
  · rename_i henough
    simpa using henough

/-- A request that is refused leaves all tokens as they are. -/
theorem available_refused (h : l.Sound t) (hrate : 0 < l.rate)
    (hrefused : l.available key now < 1) (hle : now ≤ now') :
    (l.acquire now key).2.available key' now' = l.available key' now' := by
  rw [acquire, available_acquireWith dropsIdle_prune h hrate hle, if_neg]
  exact fun hboth => absurd hrefused (not_lt.mpr hboth.1)

/-- A request that is let through takes a token from its own bucket. -/
theorem available_accepted (h : l.Sound t) (hrate : 0 < l.rate)
    (haccepted : 1 ≤ l.available key now) (hle : now ≤ now') :
    (l.acquire now key).2.available key now' =
      tokensAt l.rate (l.available key now - 1, now) now' := by
  rw [acquire, available_acquireWith dropsIdle_prune h hrate hle, if_pos ⟨haccepted, rfl⟩]

/-- A request takes no token from another bucket. -/
theorem available_acquire_of_ne (h : l.Sound t) (hrate : 0 < l.rate) (hne : key' ≠ key)
    (hle : now ≤ now') : (l.acquire now key).2.available key' now' = l.available key' now' := by
  rw [acquire, available_acquireWith dropsIdle_prune h hrate hle, if_neg]
  exact fun hboth => hne hboth.2

theorem Sound.acquire (h : l.Sound t) (hle : t ≤ now) : (l.acquire now key).2.Sound now :=
  sound_acquireWith dropsIdle_prune h hle

end TokenBucketLimiter

/-! ## Two histories -/

section TwoRuns

open TokenBucketLimiter

variable {rate start t : ℚ} {allowed : Request → Prop} {session : String} {own : List Arrival}
  {l l' : TokenBucketLimiter}

/-- The limiters have the same rate, and the same tokens in all buckets with these keys. -/
structure Alike (keys : BucketKey → Prop) (t : ℚ) (l l' : TokenBucketLimiter) : Prop where
  positive : 0 < l.rate
  rate_eq : l.rate = l'.rate
  sound : l.Sound t
  sound' : l'.Sound t
  same : ∀ key, keys key → ∀ now, t ≤ now → l.available key now = l'.available key now

/-- Requests with the keys of a session take tokens alike, and others take none of them. -/
theorem unwinding_alike (keys : BucketKey → Prop) :
    Unwinding rateLimitMiddleware (isFrom session)
      (fun a => isFrom session a = true ↔ keys a.request.key) (Alike keys) where
  observed t l l' a h hle hok hown := by
    have hkey := hok.mp hown
    have hpositive' : 0 < l'.rate := h.rate_eq ▸ h.positive
    have hsame := h.same _ hkey a.now hle
    have hdecision : (l.acquire a.now a.request.key).1.isNone =
        (l'.acquire a.now a.request.key).1.isNone := by
      rw [Bool.eq_iff_iff, accepted_iff h.sound h.positive, accepted_iff h.sound' hpositive',
        hsame]
    -- both limiters decide alike, so both take a token or neither does
    refine ⟨hdecision, ⟨?_, ?_, h.sound.acquire hle, h.sound'.acquire hle,
      fun key hk now hnow => ?_⟩⟩
    · exact lt_of_lt_of_eq h.positive acquire_rate.symm
    · exact acquire_rate.trans (h.rate_eq.trans acquire_rate.symm)
    · by_cases hne : key = a.request.key
      · subst hne
        by_cases hfew : l.available a.request.key a.now < 1
        · refine (available_refused h.sound h.positive hfew hnow).trans ?_
          rw [hsame] at hfew
          rw [h.same _ hkey now (hle.trans hnow)]
          exact (available_refused h.sound' hpositive' hfew hnow).symm
        · have henough := not_lt.mp hfew
          refine (available_accepted h.sound h.positive henough hnow).trans ?_
          rw [hsame] at henough ⊢
          rw [h.rate_eq]
          exact (available_accepted h.sound' hpositive' henough hnow).symm
      · refine (available_acquire_of_ne h.sound h.positive hne hnow).trans ?_
        rw [h.same key hk now (hle.trans hnow)]
        exact (available_acquire_of_ne h.sound' hpositive' hne hnow).symm
  unobserved t l l' a h hle hok hother := by
    -- the request has a key of its own, so it takes from none of the buckets that count
    have hkey : ¬ keys a.request.key := fun hk => by
      rw [hok.mpr hk] at hother
      cases hother
    refine ⟨?_, ?_, h.sound.acquire hle, h.sound'.of_le hle, fun key hk now hnow => ?_⟩
    · exact lt_of_lt_of_eq h.positive acquire_rate.symm
    · exact acquire_rate.trans h.rate_eq
    · have hne : key ≠ a.request.key := fun heq => hkey (heq ▸ hk)
      exact (available_acquire_of_ne h.sound h.positive hne hnow).trans
        (h.same key hk now (hle.trans hnow))

theorem sound_init : (init rate start).Sound t := fun key bucket hbucket => by
  simp [init] at hbucket

/-- No allowed request of another session contends with a request of this one. -/
def Uncontended (allowed : Request → Prop) (session : String) (own : List Arrival) : Prop :=
  ∀ a ∈ own, ∀ request, allowed request → callSession request.params ≠ some session →
    ¬ Contend request a.request

theorem isFrom_eq_true {a : Arrival} :
    isFrom session a = true ↔ callSession a.request.params = some session := by
  rw [isFrom, beq_iff_eq]

/-- Requests of others that take from other buckets make no difference. -/
theorem decisions_of_uncontended (hrate : 0 < rate)
    (huncontended : Uncontended allowed session own) {history : List Arrival}
    (h : IsHistory start allowed session own history) :
    decisions rate start session history = decisions rate start session own := by
  have halike : Alike (fun key => ∃ a ∈ own, a.request.key = key) start
      (init rate start) (init rate start) :=
    ⟨hrate, rfl, sound_init, sound_init, fun _ _ _ _ => rfl⟩
  have hok : ∀ a ∈ history,
      isFrom session a = true ↔ ∃ b ∈ own, b.request.key = a.request.key := by
    intro a ha
    constructor
    · intro hown
      refine ⟨a, ?_, rfl⟩
      rw [← h.own_eq]
      exact List.mem_filter.mpr ⟨ha, hown⟩
    · rintro ⟨b, hb, hkey⟩
      by_contra hother
      have hsession : callSession a.request.params ≠ some session := fun heq =>
        hother (isFrom_eq_true.mpr heq)
      exact huncontended b hb a.request (h.others a ha (Bool.not_eq_true _ ▸ hother)) hsession
        (key_eq_key_iff.mp hkey.symm)
  have hanswers : rateLimitMiddleware.answers (isFrom session) (init rate start) history =
      rateLimitMiddleware.answers (isFrom session) (init rate start)
        (history.filter (isFrom session)) :=
    (unwinding_alike _).answers_eq halike h.timely hok
  rw [h.own_eq] at hanswers
  exact hanswers

/-- A limiter without a whole token lets every request through or none. -/
theorem answers_of_lt_one (hrate : l.rate < 1) (history : List Arrival) :
    rateLimitMiddleware.answers (isFrom session) l history =
      (history.filter (isFrom session)).map fun _ => decide (l.rate ≤ 0) := by
  -- a bucket never has more than the rate, so no request finds a whole token
  induction history generalizing l with
  | nil => rfl
  | cons a rest ih =>
    have hnext : (rateLimitMiddleware.respond l a).2.rate = l.rate := acquire_rate
    have hdecision : (rateLimitMiddleware.respond l a).1 = decide (l.rate ≤ 0) := by
      simp only [rateLimitMiddleware, acquire, acquireWith]
      split
      · rename_i hdisabled
        simp [hdisabled]
      · rename_i henabled
        have hfew : (l.prune a.now a.request.key).available a.request.key a.now < 1 :=
          available_le.trans_lt (prune_rate.trans_lt hrate)
        simp [hfew, henabled]
    rw [Responder.answers, ih (hnext.trans_lt hrate), hnext, hdecision]
    by_cases hown : isFrom session a = true
    · rw [if_pos hown, List.filter_cons_of_pos hown, List.map_cons]
    · rw [if_neg hown, List.filter_cons_of_neg hown]

/-! ### Taking all tokens of a bucket -/

/-- Requests with other keys leave a bucket full. -/
theorem full_after {key : BucketKey} (hrate : 0 < l.rate) (hsound : l.Sound t)
    (hfull : ∀ now, t ≤ now → l.available key now = l.rate) {first : List Arrival}
    {a : Arrival} {rest : List Arrival}
    (htimely : rateLimitMiddleware.Timely t (first ++ a :: rest))
    (hkeys : ∀ b ∈ first, b.request.key ≠ key) :
    (rateLimitMiddleware.after l first).rate = l.rate ∧
      (rateLimitMiddleware.after l first).Sound a.now ∧
        (rateLimitMiddleware.after l first).available key a.now = l.rate := by
  -- no request in `first` has the key, so the bucket stays full from one to the next
  induction first generalizing l t with
  | nil => exact ⟨rfl, hsound.of_le htimely.1, hfull _ htimely.1⟩
  | cons b first ih =>
    obtain ⟨hle, hrest⟩ := htimely
    have hne : key ≠ b.request.key := (hkeys b List.mem_cons_self).symm
    have hnext : (l.acquire b.now b.request.key).2.rate = l.rate := acquire_rate
    have hfull' : ∀ now, b.now ≤ now → (l.acquire b.now b.request.key).2.available key now =
        (l.acquire b.now b.request.key).2.rate := fun now hnow => by
      rw [available_acquire_of_ne hsound hrate hne hnow, hfull now (hle.trans hnow), hnext]
    have hafter := ih (lt_of_lt_of_eq hrate hnext.symm) (hsound.acquire hle) hfull' hrest
      fun c hc => hkeys c (List.mem_cons_of_mem _ hc)
    rw [hnext] at hafter
    exact hafter

/-- So many requests at one time leave less than a token. -/
theorem few_after (now : ℚ) (request : Request) (n : ℕ) (hrate : 0 < l.rate)
    (hsound : l.Sound now) (htokens : l.available request.key now < n + 1) :
    (rateLimitMiddleware.after l (List.replicate n ⟨now, request⟩)).rate = l.rate ∧
      (rateLimitMiddleware.after l (List.replicate n ⟨now, request⟩)).Sound now ∧
        (rateLimitMiddleware.after l (List.replicate n ⟨now, request⟩)).available
          request.key now < 1 := by
  -- no time passes: each request finds one token less, or is refused and changes nothing
  induction n generalizing l with
  | zero =>
    refine ⟨rfl, hsound, ?_⟩
    change l.available request.key now < 1
    simpa using htokens
  | succ n ih =>
    have hnext : (l.acquire now request.key).2.rate = l.rate := acquire_rate
    have htaken : (l.acquire now request.key).2.available request.key now < n + 1 := by
      by_cases hfew : l.available request.key now < 1
      · rw [available_refused hsound hrate hfew (le_refl now)]
        have hn : (0 : ℚ) ≤ n := Nat.cast_nonneg n
        linarith
      · rw [available_accepted hsound hrate (not_lt.mp hfew) (le_refl now), tokensAt]
        refine (min_le_right _ _).trans_lt ?_
        push_cast at htokens
        simp only [sub_self, zero_mul, zero_div, add_zero]
        linarith
    have hafter := ih (lt_of_lt_of_eq hrate hnext.symm) (hsound.acquire (le_refl now)) htaken
    rw [hnext] at hafter
    exact hafter

/-- The requests of the session alone are a history. -/
theorem isHistory_own (hown : rateLimitMiddleware.Timely start own)
    (hsession : ∀ a ∈ own, isFrom session a = true) :
    IsHistory start allowed session own own where
  timely := hown
  own_eq := List.filter_eq_self.mpr hsession
  others a ha hother := by
    rw [hsession a ha] at hother
    cases hother

/-- Allowed requests of another session may arrive with any request of this one. -/
theorem isHistory_insert (first extra rest : List Arrival) {a : Arrival}
    (hown : rateLimitMiddleware.Timely start (first ++ a :: rest))
    (hsession : ∀ b ∈ first ++ a :: rest, isFrom session b = true)
    (hextra : ∀ b ∈ extra, b.now = a.now ∧ isFrom session b = false ∧ allowed b.request) :
    IsHistory start allowed session (first ++ a :: rest) (first ++ (extra ++ a :: rest)) where
  timely := hown.insert fun b hb => (hextra b hb).1
  own_eq := by
    have hnone : extra.filter (isFrom session) = [] :=
      List.filter_eq_nil_iff.mpr fun b hb => by simp [(hextra b hb).2.1]
    rw [List.filter_append, List.filter_append, hnone, List.nil_append, ← List.filter_append]
    exact List.filter_eq_self.mpr hsession
  others b hb hother := by
    rcases List.mem_append.mp hb with hb | hb
    · rw [hsession b (List.mem_append_left _ hb)] at hother
      cases hother
    · rcases List.mem_append.mp hb with hb | hb
      · exact (hextra b hb).2.2
      · rw [hsession b (List.mem_append_right _ hb)] at hother
        cases hother

/-- The first request of a list to a bucket. -/
theorem exists_first_to {key : BucketKey} (h : ∃ a ∈ own, a.request.key = key) :
    ∃ first a rest, own = first ++ a :: rest ∧ a.request.key = key ∧
      ∀ b ∈ first, b.request.key ≠ key := by
  obtain ⟨a, ha, hkey⟩ := h
  have hsome : (own.find? fun b => decide (b.request.key = key)).isSome = true :=
    List.find?_isSome.mpr ⟨a, ha, decide_eq_true hkey⟩
  obtain ⟨b, hb⟩ := Option.isSome_iff_exists.mp hsome
  obtain ⟨hp, first, rest, hsplit, hnone⟩ := List.find?_eq_some_iff_append.mp hb
  exact ⟨first, b, rest, hsplit, of_decide_eq_true hp, fun c hc => by simpa using hnone c hc⟩

/-- Where another session can take from a bucket of this one, it can take all of it. -/
theorem not_isolated_of_shared (hrate : 1 ≤ rate)
    (hown : rateLimitMiddleware.Timely start own) (hsession : ∀ a ∈ own, isFrom session a = true)
    {request : Request} (hallowed : allowed request)
    (hother : callSession request.params ≠ some session)
    (hshared : ∃ a ∈ own, a.request.key = request.key) :
    ¬ Isolated rate start allowed session own := by
  intro hisolated
  obtain ⟨first, a, rest, rfl, hkey, hfirst⟩ := exists_first_to hshared
  obtain ⟨n, hn⟩ := exists_nat_gt rate
  have hpositive : 0 < rate := lt_of_lt_of_le one_pos hrate
  have hforeign : ∀ b ∈ List.replicate n (⟨a.now, request⟩ : Arrival),
      isFrom session b = false := by
    intro b hb
    rw [List.eq_of_mem_replicate hb, ← Bool.not_eq_true, isFrom_eq_true]
    exact hother
  -- The session alone, and with a flood before its first request to the bucket.
  have hflooded : IsHistory start allowed session (first ++ a :: rest)
      (first ++ (List.replicate n ⟨a.now, request⟩ ++ a :: rest)) :=
    isHistory_insert _ _ _ hown hsession fun b hb =>
      ⟨by rw [List.eq_of_mem_replicate hb], hforeign b hb,
        by rw [List.eq_of_mem_replicate hb]; exact hallowed⟩
  have hequal := hisolated _ _ (isHistory_own hown hsession) hflooded
  -- Alone, the request finds a full bucket; behind the flood it finds less than a token.
  have hfull : ∀ now, start ≤ now → (init rate start).available request.key now =
      (init rate start).rate := fun now _ => available_of_lookup_none (by simp [init])
  obtain ⟨hrate₁, hsound₁, havailable₁⟩ := full_after (l := init rate start) hpositive
    sound_init hfull hown hfirst
  have hpositive₁ := lt_of_lt_of_eq hpositive hrate₁.symm
  have hfew : (rateLimitMiddleware.after (init rate start) first).available request.key a.now <
      n + 1 := by
    rw [havailable₁]
    exact hn.trans (lt_add_one _)
  obtain ⟨hrate₂, hsound₂, havailable₂⟩ := few_after a.now request n hpositive₁ hsound₁ hfew
  have hpositive₂ := lt_of_lt_of_eq hpositive₁ hrate₂.symm
  simp only [decisions, Responder.answers_append] at hequal
  rw [rateLimitMiddleware.answers_eq_nil hforeign, List.nil_append] at hequal
  have hself : isFrom session a = true := hsession a (by simp)
  rw [Responder.answers, Responder.answers, if_pos hself, if_pos hself] at hequal
  -- the decisions agree up to this request, so they agree on it as well
  have hhead := List.head_eq_of_cons_eq (List.append_cancel_left hequal)
  have hone : 1 ≤ (rateLimitMiddleware.after (init rate start) first).available
      a.request.key a.now := by
    rw [hkey, havailable₁]
    exact hrate
  have haccepted := hhead.symm.trans ((accepted_iff hsound₁ hpositive₁).mpr hone)
  have hfound := (accepted_iff hsound₂ hpositive₂).mp haccepted
  rw [hkey] at hfound
  exact absurd havailable₂ (not_lt.mpr hfound)

/-- A session is isolated exactly when the limiter decides without counting, or no other
session may name a tool of this one with the same session id at the top level, or no registered
tool when this one names none. -/
theorem isolated_iff (hown : rateLimitMiddleware.Timely start own)
    (hsession : ∀ a ∈ own, isFrom session a = true) :
    Isolated rate start allowed session own ↔
      rate < 1 ∨ Uncontended allowed session own := by
  constructor
  · intro hisolated
    by_contra hnot
    obtain ⟨hrate, hcontended⟩ := not_or.mp hnot
    simp only [Uncontended, not_forall, not_not] at hcontended
    obtain ⟨a, ha, request, hallowed, hother, hcontend⟩ := hcontended
    have hkey : a.request.key = request.key := (key_eq_key_iff.mpr hcontend).symm
    exact not_isolated_of_shared (not_lt.mp hrate) hown hsession hallowed hother
      ⟨a, ha, hkey⟩ hisolated
  · intro hor history history' h h'
    by_cases hrate : rate < 1
    · rw [decisions, decisions, answers_of_lt_one (l := init rate start) hrate,
        answers_of_lt_one (l := init rate start) hrate, h.own_eq, h'.own_eq]
    · have hpositive : 0 < rate := one_pos.trans_le (not_lt.mp hrate)
      have huncontended := hor.resolve_left hrate
      rw [decisions_of_uncontended hpositive huncontended h,
        decisions_of_uncontended hpositive huncontended h']

end TwoRuns

/-! ## Two sessions and one tool -/

/-- A call of a tool with a session id among its arguments. -/
def toolCall (tool session : String) : Request where
  registered := ["ppsspp_read_memory", "ppsspp_step"]
  params := .dict [(.str "name", .str tool),
    (.str "arguments", .dict [(.str "session_id", .str session)])]

/-- The request carries a session id among its arguments. -/
def CarriesSession (request : Request) : Prop := (callSession request.params).isSome = true

/-- The request of session A. -/
def readCall : Arrival := ⟨0, toolCall "ppsspp_read_memory" "A"⟩

/-- A session whose tool no other session calls is isolated. -/
theorem isolated_otherTool :
    Isolated 1 0 (fun request => request = toolCall "ppsspp_step" "B") "A" [readCall] := by
  have hown : rateLimitMiddleware.Timely 0 [readCall] := ⟨le_refl _, trivial⟩
  have hsession : ∀ a ∈ [readCall], isFrom "A" a = true := fun a ha => by
    rw [List.mem_singleton.mp ha]
    rfl
  refine (isolated_iff hown hsession).mpr (Or.inr fun a ha request hrequest _ => ?_)
  rw [List.mem_singleton.mp ha, hrequest, contend_iff_tool rfl rfl]
  decide

/-- A call of the same tool by session B takes the only token. -/
theorem not_isolated_sameTool :
    ¬ ∀ (rate start : ℚ) (session : String) (own : List Arrival),
      Isolated rate start CarriesSession session own := by
  intro hall
  have hown : rateLimitMiddleware.Timely 0 [readCall] := ⟨le_refl _, trivial⟩
  have hsession : ∀ a ∈ [readCall], isFrom "A" a = true := fun a ha => by
    rw [List.mem_singleton.mp ha]
    rfl
  have hboth : IsHistory 0 CarriesSession "A" [readCall]
      [⟨0, toolCall "ppsspp_read_memory" "B"⟩, readCall] :=
    isHistory_insert [] [⟨0, toolCall "ppsspp_read_memory" "B"⟩] [] hown hsession fun b hb => by
        rw [List.mem_singleton.mp hb]
        exact ⟨rfl, rfl, rfl⟩
  have hequal := hall 1 0 "A" [readCall] _ _ (isHistory_own hown hsession) hboth
  exact absurd hequal (by decide +kernel)

end RateLimit
