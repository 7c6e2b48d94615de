import AcojWorker.Redis.SortedSet
import Mathlib.Data.List.Induction
import Mathlib.Data.List.Nodup
import Mathlib.Tactic.Linarith

/-!
# The rate limit

Requests that share a key are counted in one sorted set: every request adds the moment of its
arrival, old moments are removed, and the number of members left decides.

The member is the text of the moment. Two requests of one moment are one member, so the count
is the number of the requests only if they come at different moments; then no window lets
more than the limit through.
-/

namespace AcojWorker

namespace RateLimitMiddleware

open Redis

inductive Scope where
  | ip
  | user
  | mix
deriving DecidableEq, Repr

/-- A pattern `^/api/v\d+/…`: its text, and the texts one of which has to follow. -/
structure Pattern where
  pattern : String
  tails : List String
deriving DecidableEq, Repr

structure Rule where
  pattern : Pattern
  limit : Nat
  windowSec : Nat
  scope : Scope
deriving DecidableEq, Repr

def rateLimitRules : List Rule := [
  ⟨⟨"^/api/v\\d+/(admin|portal)/login", ["admin/login", "portal/login"]⟩, 10, 60, .ip⟩,
  ⟨⟨"^/api/v\\d+/portal/register", ["portal/register"]⟩, 5, 60, .ip⟩,
  ⟨⟨"^/api/v\\d+/(admin|portal)/(forgot-password|reset-password)",
    ["admin/forgot-password", "admin/reset-password", "portal/forgot-password",
      "portal/reset-password"]⟩, 5, 60, .ip⟩,
  ⟨⟨"^/api/v\\d+/(admin|portal)/captcha", ["admin/captcha", "portal/captcha"]⟩, 30, 60, .ip⟩,
  ⟨⟨"^/api/v\\d+/", [""]⟩, 120, 60, .mix⟩]

/-- What a request is judged by: its path, and the context variables of the client. -/
structure Request where
  path : String
  clientIp : Option String
  accountId : Option String
deriving DecidableEq, Repr

inductive Response where
  | next
  | json (statusCode : Nat) (message : String) (retryAfter : Nat)
deriving DecidableEq, Repr

section Keys

-- Which characters `\d` stands for.
variable (decimal : Char → Bool)

/-- What follows `\d+/`. -/
def afterVersion (cs : List Char) : Option (List Char) :=
  match cs.takeWhile decimal, cs.dropWhile decimal with
  | _ :: _, '/' :: rest => some rest
  | _, _ => none

def Pattern.search (p : Pattern) (path : String) : Bool :=
  if "/api/v".toList.isPrefixOf path.toList then
    match afterVersion decimal (path.toList.drop "/api/v".length) with
    | some rest => p.tails.any fun tail => tail.toList.isPrefixOf rest
    | none => false
  else false

/-- An empty context variable counts as none. -/
def Request.uid (request : Request) : Option String := request.accountId.filter (· ≠ "")

def Request.ip (request : Request) : String :=
  (request.clientIp.filter (· ≠ "")).getD "unknown"

def rateLimitKey (rule : Rule) (request : Request) : Option String :=
  match rule.scope, request.uid with
  | .ip, _ => some ("rl:ip:" ++ request.ip ++ ":" ++ rule.pattern.pattern)
  | .user, none => none
  | .user, some uid => some ("rl:user:" ++ uid ++ ":" ++ rule.pattern.pattern)
  | .mix, some uid => some ("rl:user:" ++ uid ++ ":" ++ rule.pattern.pattern)
  | .mix, none => some ("rl:ip:" ++ request.ip ++ ":" ++ rule.pattern.pattern)

end Keys

/-- The text `str(now)`. Texts of floats are equal exactly when the floats are, so the text is
represented by the number it denotes. -/
structure FloatText where
  value : ℚ
deriving DecidableEq

def str (now : ℚ) : FloatText := ⟨now⟩

/-- The four commands of the pipeline, and the answer to the third. -/
def incrementAndCheck (redis : Sets FloatText) (key : String) (_limit windowSec : Nat)
    (now : ℚ) : Nat × Sets FloatText :=
  let windowStart := now - windowSec
  let added := redis.modify key now (·.zadd (str now) now)
  let trimmed := added.modify key now (·.zremrangebyscore 0 windowStart)
  ((trimmed.found key now).1.zcard, trimmed.expire key windowSec now)

/-- The loop over the rules: the first rule that applies decides. -/
def applyRules (decimal : Char → Bool) (request : Request) (now : ℚ) (redis : Sets FloatText) :
    List Rule → Response × Sets FloatText
  | [] => (.next, redis)
  | rule :: rules =>
      if rule.pattern.search decimal request.path then
        match rateLimitKey rule request with
        | none => applyRules decimal request now redis rules
        | some key =>
            let (count, redis) := incrementAndCheck redis key rule.limit rule.windowSec now
            if count > rule.limit then
              (.json 429 "请求过于频繁，请稍后再试" rule.windowSec, redis)
            else (.next, redis)
      else applyRules decimal request now redis rules

def dispatch (decimal : Char → Bool) (request : Request) (now : ℚ) :
    Option (Sets FloatText) → Response × Option (Sets FloatText)
  | none => (.next, none)
  | some redis =>
      let (response, redis) := applyRules decimal request now redis rateLimitRules
      (response, some redis)

/-! ### Which rule counts a request -/

section Selection

variable (decimal : Char → Bool) (request : Request)

/-- The rule that applies, with the key it counts under. -/
def selected : List Rule → Option (Rule × String)
  | [] => none
  | rule :: rules =>
      if rule.pattern.search decimal request.path then
        match rateLimitKey rule request with
        | none => selected rules
        | some key => some (rule, key)
      else selected rules

theorem applyRules_eq (now : ℚ) (redis : Sets FloatText) (rules : List Rule) :
    applyRules decimal request now redis rules =
      match selected decimal request rules with
      | none => (.next, redis)
      | some (rule, key) =>
          let counted := incrementAndCheck redis key rule.limit rule.windowSec now
          if counted.1 > rule.limit then
            (.json 429 "请求过于频繁，请稍后再试" rule.windowSec, counted.2)
          else (.next, counted.2) := by
  induction rules with
  | nil => rfl
  | cons rule rules ih =>
      rw [applyRules, selected]
      split
      · cases rateLimitKey rule request with
        | none => exact ih
        | some key => rfl
      · exact ih

variable {decimal request}

theorem selected_mem {rules : List Rule} {rule : Rule} {key : String}
    (h : selected decimal request rules = some (rule, key)) :
    rule ∈ rules ∧ rateLimitKey rule request = some key := by
  induction rules with
  | nil => cases h
  | cons first rules ih =>
      rw [selected] at h
      split at h
      · cases hkey : rateLimitKey first request with
        | none =>
            rw [hkey] at h
            exact ⟨List.mem_cons_of_mem _ (ih h).1, (ih h).2⟩
        | some own =>
            rw [hkey] at h
            cases h
            exact ⟨List.mem_cons_self .., hkey⟩
      · exact ⟨List.mem_cons_of_mem _ (ih h).1, (ih h).2⟩

end Selection

/-- What follows the last colon. -/
theorem afterColon_inj {a b p q : List Char} (hp : ':' ∉ p) (hq : ':' ∉ q)
    (same : a ++ ':' :: p = b ++ ':' :: q) : p = q := by
  obtain ⟨c, rfl, hc⟩ | ⟨c, rfl, hc⟩ := List.append_eq_append_iff.mp same
  · cases c with
    | nil => exact (List.cons.inj hc).2
    | cons x c => exact absurd (by rw [(List.cons.inj hc).2]; simp) hp
  · cases c with
    | nil => exact (List.cons.inj hc).2.symm
    | cons x c => exact absurd (by rw [(List.cons.inj hc).2]; simp) hq

theorem rateLimitKey_form {rule : Rule} {request : Request} {key : String}
    (h : rateLimitKey rule request = some key) :
    ∃ client, key.toList = client ++ ':' :: rule.pattern.pattern.toList := by
  have form : ∀ start client : String, key = start ++ client ++ ":" ++ rule.pattern.pattern →
      ∃ client, key.toList = client ++ ':' :: rule.pattern.pattern.toList := by
    intro start client h
    refine ⟨(start ++ client).toList, ?_⟩
    rw [h, String.toList_append, String.toList_append, List.append_assoc]
    rfl
  rw [rateLimitKey] at h
  split at h
  · exact form _ _ (Option.some.inj h).symm
  · cases h
  · exact form _ _ (Option.some.inj h).symm
  · exact form _ _ (Option.some.inj h).symm
  · exact form _ _ (Option.some.inj h).symm

/-- No two rules count under one key. -/
theorem rule_of_key {rule rule' : Rule} {request request' : Request} {key : String}
    (mem : rule ∈ rateLimitRules) (mem' : rule' ∈ rateLimitRules)
    (h : rateLimitKey rule request = some key) (h' : rateLimitKey rule' request' = some key) :
    rule = rule' := by
  have noColon : ∀ rule ∈ rateLimitRules, ':' ∉ rule.pattern.pattern.toList := by decide
  have distinct : (rateLimitRules.map fun rule => rule.pattern.pattern.toList).Nodup := by decide
  obtain ⟨client, hclient⟩ := rateLimitKey_form h
  obtain ⟨client', hclient'⟩ := rateLimitKey_form h'
  apply List.inj_on_of_nodup_map distinct mem mem'
  exact afterColon_inj (noColon rule mem) (noColon rule' mem') (hclient.symm.trans hclient')

/-! ### Sequences of requests -/

/-- A request, and the moment it is counted at. -/
structure Arrival where
  request : Request
  now : ℚ
deriving DecidableEq, Repr

abbrev Answers : Type := List (Arrival × Response)

section Runs

variable (decimal : Char → Bool)

/-- The requests one after the other, each with its response. -/
def serve (redis : Option (Sets FloatText)) (arrivals : List Arrival) :
    Answers × Option (Sets FloatText) :=
  arrivals.foldl (fun (answers, redis) a =>
    let (response, redis) := dispatch decimal a.request a.now redis
    (answers ++ [(a, response)], redis)) ([], redis)

/-- The request is counted by this rule under this key. -/
def CountedBy (rule : Rule) (key : String) (a : Arrival) : Prop :=
  selected decimal a.request rateLimitRules = some (rule, key)

instance (rule : Rule) (key : String) : DecidablePred (CountedBy decimal rule key) :=
  fun _ => inferInstanceAs (Decidable (_ = _))

/-- The moments of the requests of a key. -/
def moments (rule : Rule) (key : String) (arrivals : List Arrival) : List ℚ :=
  (arrivals.filter (CountedBy decimal rule key)).map Arrival.now

/-- The moments of the requests of a key that are let through. -/
def letThrough (rule : Rule) (key : String) (answers : Answers) : List ℚ :=
  (answers.filter fun answer =>
    CountedBy decimal rule key answer.1 ∧ answer.2 = .next).map fun answer => answer.1.now

/-- A window: any two of its moments are less than its length apart. -/
def IsWindow (seconds : ℚ) (inside : ℚ → Bool) : Prop :=
  ∀ s t, inside s → inside t → t - s < seconds

/-- No window of a key lets more requests through than its rule allows. -/
def Limited (arrivals : List Arrival) : Prop :=
  ∀ rule key inside, IsWindow rule.windowSec inside →
    (letThrough decimal rule key (serve decimal (some .empty) arrivals).1).countP inside ≤
      rule.limit

/-- The requests come in the order of their moments. -/
def InOrder (arrivals : List Arrival) : Prop :=
  arrivals.Pairwise fun a b => a.now ≤ b.now

instance : DecidablePred InOrder := fun _ => inferInstanceAs (Decidable (List.Pairwise _ _))

/-- No two requests of a key come at the same moment. -/
def Apart (arrivals : List Arrival) : Prop :=
  ∀ rule key, (moments decimal rule key arrivals).Nodup

variable {decimal}

theorem serve_concat (arrivals : List Arrival) (a : Arrival) :
    serve decimal redis (arrivals ++ [a]) =
      ((serve decimal redis arrivals).1 ++
          [(a, (dispatch decimal a.request a.now (serve decimal redis arrivals).2).1)],
        (dispatch decimal a.request a.now (serve decimal redis arrivals).2).2) := by
  rw [serve, List.foldl_concat]
  rfl

end Runs

/-! ### What the set of a key records -/

/-- Every moment that is still in some later window is a member. -/
def Recorded (key : String) (windowSec : Nat) (times : List ℚ) (redis : Sets FloatText) : Prop :=
  ∀ t ∈ times, ∀ now, (∀ u ∈ times, u ≤ now) → now - windowSec < t →
    (str t, t) ∈ (redis.found key now).1.entries

section Counting

variable {redis : Sets FloatText} {key : String} {limit windowSec : Nat} {times : List ℚ} {now : ℚ}

/-- What a later command finds under the key. -/
theorem found_increment {later : ℚ} (alive : later ≤ now + windowSec) :
    ((incrementAndCheck redis key limit windowSec now).2.found key later).1 =
      ((redis.found key now).1.zadd (str now) now).zremrangebyscore 0 (now - windowSec) := by
  simp only [incrementAndCheck, Sets.found_expire alive, Sets.found_modify]

theorem count_increment :
    (incrementAndCheck redis key limit windowSec now).1 =
      (((redis.found key now).1.zadd (str now) now).zremrangebyscore 0
        (now - windowSec)).zcard := by
  simp only [incrementAndCheck, Sets.found_modify]

/-- The members after a request at a new moment. -/
theorem mem_increment (recorded : Recorded key windowSec times redis)
    (latest : ∀ t ∈ times, t ≤ now) (new : now ∉ times) {t : ℚ} (ht : t ∈ times ++ [now])
    (recent : now - windowSec < t) :
    (str t, t) ∈ (((redis.found key now).1.zadd (str now) now).zremrangebyscore 0
      (now - windowSec)).entries := by
  rw [SortedSet.mem_zremrangebyscore, SortedSet.mem_zadd]
  refine ⟨?_, fun old => absurd old.2 (not_le.mpr recent)⟩
  obtain h | h := List.mem_append.mp ht
  · right
    refine ⟨recorded t h now latest recent, fun same => new ?_⟩
    have same : t = now := congrArg FloatText.value same
    exact same ▸ h
  · left
    rw [List.mem_singleton.mp h]

theorem recorded_increment (recorded : Recorded key windowSec times redis)
    (latest : ∀ t ∈ times, t ≤ now) (new : now ∉ times) :
    Recorded key windowSec (times ++ [now])
      (incrementAndCheck redis key limit windowSec now).2 := by
  intro t ht later hlater recent
  have forward : now ≤ later := hlater now (by simp)
  have upto : t ≤ now := by
    obtain h | h := List.mem_append.mp ht
    · exact latest t h
    · exact le_of_eq (List.mem_singleton.mp h)
  rw [found_increment (by linarith)]
  exact mem_increment recorded latest new ht (by linarith)

/-- The count is at least the number of the moments in the window that ends now. -/
theorem le_count (recorded : Recorded key windowSec times redis) (latest : ∀ t ∈ times, t ≤ now)
    (new : now ∉ times) {some_times : List ℚ} (nodup : some_times.Nodup)
    (among : ∀ t ∈ some_times, t ∈ times ++ [now])
    (recent : ∀ t ∈ some_times, now - windowSec < t) :
    some_times.length ≤ (incrementAndCheck redis key limit windowSec now).1 := by
  have inj : Function.Injective fun t : ℚ => (str t, t) :=
    fun _ _ same => congrArg Prod.snd same
  rw [count_increment, ← List.length_map fun t : ℚ => (str t, t)]
  apply SortedSet.length_le_zcard (nodup.map inj)
  intro e he
  obtain ⟨t, ht, rfl⟩ := List.mem_map.mp he
  exact mem_increment recorded latest new (among t ht) (recent t ht)

/-- The requests of other keys leave the members alone. -/
theorem recorded_of_ne {other : String} (ne : key ≠ other)
    (recorded : Recorded key windowSec times redis) {limit' windowSec' : Nat} :
    Recorded key windowSec times (incrementAndCheck redis other limit' windowSec' now).2 := by
  intro t ht later hlater recent
  simp only [incrementAndCheck, Sets.found_expire_of_ne ne, Sets.found_modify_of_ne ne]
  exact recorded t ht later hlater recent

end Counting

section Soundness

variable {decimal : Char → Bool} {redis : Sets FloatText} {rule : Rule} {key : String}

theorem dispatch_counted {request : Request} (redis : Sets FloatText) (now : ℚ)
    (h : selected decimal request rateLimitRules = some (rule, key)) :
    (dispatch decimal request now (some redis)).2 =
        some (incrementAndCheck redis key rule.limit rule.windowSec now).2 ∧
      ((dispatch decimal request now (some redis)).1 = .next ↔
        (incrementAndCheck redis key rule.limit rule.windowSec now).1 ≤ rule.limit) := by
  simp only [dispatch, applyRules_eq, h]
  by_cases beyond : (incrementAndCheck redis key rule.limit rule.windowSec now).1 > rule.limit
  · rw [if_pos beyond]
    exact ⟨rfl, nofun, fun le => absurd beyond (not_lt.mpr le)⟩
  · rw [if_neg beyond]
    exact ⟨rfl, fun _ => not_lt.mp beyond, fun _ => rfl⟩

theorem moments_concat (arrivals : List Arrival) (a : Arrival) :
    moments decimal rule key (arrivals ++ [a]) =
      moments decimal rule key arrivals ++
        if CountedBy decimal rule key a then [a.now] else [] := by
  rw [moments, List.filter_append, List.map_append, moments, List.filter_singleton]
  by_cases h : CountedBy decimal rule key a <;> simp [h]

theorem letThrough_concat (decimal : Char → Bool) (rule : Rule) (key : String)
    (answers : Answers) (a : Arrival) (response : Response) :
    letThrough decimal rule key (answers ++ [(a, response)]) =
      letThrough decimal rule key answers ++
        if CountedBy decimal rule key a ∧ response = .next then [a.now] else [] := by
  rw [letThrough, List.filter_append, List.map_append, letThrough, List.filter_singleton]
  by_cases h : CountedBy decimal rule key a ∧ response = .next <;> simp [h]

/-- What holds of a key after every sequence of requests. -/
structure Kept (decimal : Char → Bool) (rule : Rule) (key : String) (inside : ℚ → Bool)
    (arrivals : List Arrival) (answers : Answers) (redis : Sets FloatText) : Prop where
  recorded : Recorded key rule.windowSec (moments decimal rule key arrivals) redis
  among : (letThrough decimal rule key answers).Sublist (moments decimal rule key arrivals)
  bounded : (letThrough decimal rule key answers).countP inside ≤ rule.limit

variable {inside : ℚ → Bool} {arrivals : List Arrival} {answers : Answers} {a : Arrival}

/-- A request of another key, or of none. -/
theorem Kept.other (kept : Kept decimal rule key inside arrivals answers redis)
    (free : ¬ CountedBy decimal rule key a) (response : Response) {redis' : Sets FloatText}
    (recorded : Recorded key rule.windowSec (moments decimal rule key arrivals) redis') :
    Kept decimal rule key inside (arrivals ++ [a]) (answers ++ [(a, response)]) redis' := by
  have same : moments decimal rule key (arrivals ++ [a]) = moments decimal rule key arrivals := by
    rw [moments_concat, if_neg free, List.append_nil]
  have same' : letThrough decimal rule key (answers ++ [(a, response)]) =
      letThrough decimal rule key answers := by
    rw [letThrough_concat, if_neg fun h => free h.1, List.append_nil]
  refine ⟨?_, ?_, ?_⟩
  · rw [same]
    exact recorded
  · rw [same, same']
    exact kept.among
  · rw [same']
    exact kept.bounded

/-- A request of the key itself, at a new moment. -/
theorem Kept.counted (kept : Kept decimal rule key inside arrivals answers redis)
    (window : IsWindow rule.windowSec inside) (counted : CountedBy decimal rule key a)
    (latest : ∀ t ∈ moments decimal rule key arrivals, t ≤ a.now)
    (distinct : (moments decimal rule key (arrivals ++ [a])).Nodup) :
    Kept decimal rule key inside (arrivals ++ [a])
      (answers ++ [(a, (dispatch decimal a.request a.now (some redis)).1)])
      (incrementAndCheck redis key rule.limit rule.windowSec a.now).2 := by
  have step : moments decimal rule key (arrivals ++ [a]) =
      moments decimal rule key arrivals ++ [a.now] := by
    rw [moments_concat, if_pos counted]
  rw [step] at distinct
  have new : a.now ∉ moments decimal rule key arrivals := by
    intro old
    exact List.disjoint_of_nodup_append distinct old (List.mem_singleton_self _)
  have passed := (dispatch_counted redis a.now counted).2
  have grown := letThrough_concat decimal rule key answers a
    (dispatch decimal a.request a.now (some redis)).1
  refine ⟨?_, ?_, ?_⟩
  · rw [step]
    exact recorded_increment kept.recorded latest new
  · rw [step, grown]
    split
    · exact kept.among.append (List.Sublist.refl _)
    · exact kept.among.append (List.nil_sublist _)
  · rw [grown, List.countP_append]
    split
    · rename_i h
      by_cases within : inside a.now = true
      · -- The requests let through in the window are members when this one is counted.
        have among : (letThrough decimal rule key answers ++ [a.now]).Sublist
            (moments decimal rule key arrivals ++ [a.now]) :=
          kept.among.append (List.Sublist.refl _)
        have fits : ((letThrough decimal rule key answers ++ [a.now]).filter inside).length ≤
            (incrementAndCheck redis key rule.limit rule.windowSec a.now).1 := by
          apply le_count kept.recorded latest new
          · exact (distinct.sublist among).filter _
          · exact fun t ht => among.subset (List.mem_filter.mp ht).1
          · intro t ht
            have := window t a.now (List.mem_filter.mp ht).2 within
            linarith
        rw [← List.countP_eq_length_filter, List.countP_append] at fits
        exact fits.trans (passed.mp h.2)
      · rw [List.countP_cons_of_neg within]
        exact kept.bounded
    · exact kept.bounded

/-- Requests at different moments: in every window of a key, no more than its limit. -/
theorem limited_of_apart {arrivals : List Arrival} (inOrder : InOrder arrivals)
    (apart : Apart decimal arrivals) : Limited decimal arrivals := by
  intro rule key inside window
  suffices run : ∃ redis, (serve decimal (some .empty) arrivals).2 = some redis ∧
      Kept decimal rule key inside arrivals (serve decimal (some .empty) arrivals).1 redis by
    obtain ⟨_, _, kept⟩ := run
    exact kept.bounded
  induction arrivals using List.reverseRecOn with
  | nil => exact ⟨_, rfl, nofun, List.Sublist.refl _, Nat.zero_le _⟩
  | append_singleton arrivals a ih =>
      have before := List.sublist_append_left arrivals [a]
      obtain ⟨redis, state, kept⟩ := ih (inOrder.sublist before)
        fun rule key => (apart rule key).sublist ((before.filter _).map _)
      rw [serve_concat, state]
      by_cases counted : CountedBy decimal rule key a
      · refine ⟨_, (dispatch_counted _ _ counted).1, kept.counted window counted ?_ (apart rule key)⟩
        intro t ht
        obtain ⟨b, hb, rfl⟩ := List.mem_map.mp ht
        have ordered := List.pairwise_append.mp inOrder
        exact ordered.2.2 b (List.mem_filter.mp hb).1 a (List.mem_singleton_self a)
      · cases h : selected decimal a.request rateLimitRules with
        | none =>
            refine ⟨redis, ?_, kept.other counted _ kept.recorded⟩
            simp only [dispatch, applyRules_eq, h]
        | some pair =>
            obtain ⟨rule', key'⟩ := pair
            refine ⟨_, (dispatch_counted _ _ h).1, kept.other counted _ ?_⟩
            by_cases same : key' = key
            · -- Under this key only the other rule counts.
              subst same
              have none_before : moments decimal rule key' arrivals = [] := by
                rw [moments, List.map_eq_nil_iff, List.filter_eq_nil_iff]
                intro b _ hb
                have own := selected_mem (of_decide_eq_true hb)
                have other := selected_mem h
                have := rule_of_key own.1 other.1 own.2 other.2
                subst this
                exact counted h
              rw [none_before]
              exact nofun
            · exact recorded_of_ne (Ne.symm same) kept.recorded

/-- Six registrations from one address at one moment: all are let through, five are allowed. -/
theorem limited_fails : ¬ ∀ arrivals, InOrder arrivals → Limited Char.isDigit arrivals := by
  intro limited
  let request : Request := ⟨"/api/v1/portal/register", some "10.0.0.1", none⟩
  have bound := limited (List.replicate 6 ⟨request, 100⟩) (by decide +kernel)
    ⟨⟨"^/api/v\\d+/portal/register", ["portal/register"]⟩, 5, 60, .ip⟩
    "rl:ip:10.0.0.1:^/api/v\\d+/portal/register" (fun t => decide (t = 100)) (by
      intro s t hs ht
      rw [of_decide_eq_true hs, of_decide_eq_true ht]
      norm_num)
  exact absurd bound (by decide +kernel)

/-- Two registrations one second apart. -/
theorem limited_two :
    Limited Char.isDigit
      [⟨⟨"/api/v1/portal/register", some "10.0.0.1", none⟩, 100⟩,
        ⟨⟨"/api/v1/portal/register", some "10.0.0.1", none⟩, 101⟩] := by
  apply limited_of_apart
  · exact by decide +kernel
  · intro rule key
    have distinct : ([⟨⟨"/api/v1/portal/register", some "10.0.0.1", none⟩, 100⟩,
        ⟨⟨"/api/v1/portal/register", some "10.0.0.1", none⟩, 101⟩].map Arrival.now).Nodup := by
      decide +kernel
    exact distinct.sublist (List.filter_sublist.map _)

end Soundness

end RateLimitMiddleware

end AcojWorker
