import AcojWorker.Data.SlidingLog
import AcojWorker.Middleware.RateLimit

/-!
# What the rate limit decides

The sorted set of a key is a sliding log: whatever expires, is trimmed or is overwritten
between two requests of a key, the count is the number of the different moments in the window
that ends with the request, those of the refused requests included. So the answers are a
function of the requests alone, and in no window are requests of more different moments let
through than the rule allows.
-/

namespace AcojWorker

namespace RateLimitMiddleware

open Redis

section Decisions

variable (decimal : Char → Bool)

/-- The answer to a request that comes after others. -/
def decision (before : List Arrival) (a : Arrival) : Response :=
  match selected decimal a.request rateLimitRules with
  | none => .next
  | some (rule, key) =>
      if SlidingLog.Accepts (rule.windowSec : ℚ) rule.limit (moments decimal rule key before) a.now
      then .next
      else .json 429 "请求过于频繁，请稍后再试" rule.windowSec

/-- The answers to requests that come after others. -/
def decisions : List Arrival → List Arrival → Answers
  | _, [] => []
  | before, a :: rest => (a, decision decimal before a) :: decisions (before ++ [a]) rest

/-- The clock starts at zero. -/
def SinceEpoch (arrivals : List Arrival) : Prop :=
  ∀ a ∈ arrivals, 0 ≤ a.now

instance : DecidablePred SinceEpoch := fun _ => inferInstanceAs (Decidable (∀ _ ∈ _, _))

theorem decisions_concat (before arrivals : List Arrival) (a : Arrival) :
    decisions decimal before (arrivals ++ [a]) =
      decisions decimal before arrivals ++ [(a, decision decimal (before ++ arrivals) a)] := by
  induction arrivals generalizing before with
  | nil => rw [List.append_nil]; rfl
  | cons b arrivals ih =>
      rw [List.cons_append, decisions, ih, decisions, List.append_assoc before]
      rfl

end Decisions

/-! ### The set of a key is its log -/

/-- From the last of these moments on, the members are these moments, as far as they are still
in the window. -/
structure Logged (key : String) (windowSec : Nat) (times : List ℚ) (redis : Sets FloatText) :
    Prop where
  recorded : Recorded key windowSec times redis
  only : ∀ now, (∀ t ∈ times, t ≤ now) → ∀ e ∈ (redis.found key now).1.entries,
    ∃ t ∈ times, e = (str t, t)

section Counting

variable {redis : Sets FloatText} {key : String} {limit windowSec : Nat} {times : List ℚ} {now : ℚ}

theorem mem_counted (logged : Logged key windowSec times redis) (latest : ∀ t ∈ times, t ≤ now)
    (epoch : ∀ t ∈ times ++ [now], 0 ≤ t) (e : FloatText × ℚ) :
    e ∈ (((redis.found key now).1.zadd (str now) now).zremrangebyscore 0
        (now - windowSec)).entries ↔
      ∃ t ∈ SlidingLog.window (windowSec : ℚ) now (times ++ [now]), e = (str t, t) := by
  rw [SortedSet.mem_zremrangebyscore, SortedSet.mem_zadd]
  constructor
  · rintro ⟨rfl | ⟨mem, -⟩, young⟩
    · refine ⟨now, SlidingLog.mem_window.mpr ⟨by simp, ?_⟩, rfl⟩
      exact not_le.mp fun old => young ⟨epoch now (by simp), old⟩
    · obtain ⟨t, ht, rfl⟩ := logged.only now latest e mem
      have own := List.mem_append_left [now] ht
      refine ⟨t, SlidingLog.mem_window.mpr ⟨own, ?_⟩, rfl⟩
      exact not_le.mp fun old => young ⟨epoch t own, old⟩
  · rintro ⟨t, ht, rfl⟩
    obtain ⟨own, young⟩ := SlidingLog.mem_window.mp ht
    refine ⟨?_, fun old => absurd old.2 (not_le.mpr young)⟩
    by_cases same : t = now
    · left
      rw [same]
    · right
      refine ⟨logged.recorded t ?_ now latest young, fun text => same (congrArg FloatText.value text)⟩
      exact (List.mem_append.mp own).resolve_right fun h => same (List.mem_singleton.mp h)

/-- The count of a request. -/
theorem count_eq (logged : Logged key windowSec times redis) (latest : ∀ t ∈ times, t ≤ now)
    (epoch : ∀ t ∈ times ++ [now], 0 ≤ t) :
    (incrementAndCheck redis key limit windowSec now).1 =
      (SlidingLog.window (windowSec : ℚ) now (times ++ [now])).length := by
  have inj : Function.Injective fun t : ℚ => (str t, t) :=
    fun _ _ same => congrArg Prod.snd same
  rw [count_increment, ← List.length_map fun t : ℚ => (str t, t)]
  refine List.Perm.length_eq ?_
  have distinct := (((redis.found key now).1.zadd (str now) now).zremrangebyscore 0
    (now - windowSec)).distinct.of_map
  rw [List.perm_ext_iff_of_nodup distinct (SlidingLog.window_nodup.map inj)]
  intro e
  rw [mem_counted logged latest epoch, List.mem_map]
  simp only [eq_comm]

theorem logged_increment (logged : Logged key windowSec times redis)
    (latest : ∀ t ∈ times, t ≤ now) (epoch : ∀ t ∈ times ++ [now], 0 ≤ t) :
    Logged key windowSec (times ++ [now])
      (incrementAndCheck redis key limit windowSec now).2 := by
  constructor
  · intro t ht later hlater young
    have forward : now ≤ later := hlater now (by simp)
    have upto : t ≤ now := by
      obtain h | h := List.mem_append.mp ht
      · exact latest t h
      · exact le_of_eq (List.mem_singleton.mp h)
    rw [found_increment (by linarith), mem_counted logged latest epoch]
    exact ⟨t, SlidingLog.mem_window.mpr ⟨ht, by linarith⟩, rfl⟩
  · intro later hlater e he
    by_cases alive : later ≤ now + windowSec
    · rw [found_increment alive, mem_counted logged latest epoch] at he
      obtain ⟨t, ht, rfl⟩ := he
      exact ⟨t, (SlidingLog.mem_window.mp ht).1, rfl⟩
    · rw [incrementAndCheck, Sets.found_expired (not_le.mp alive)] at he
      cases he

/-- The requests of other keys leave the log alone. -/
theorem Logged.other {other : String} (ne : key ≠ other)
    (logged : Logged key windowSec times redis) {limit' windowSec' : Nat} :
    Logged key windowSec times (incrementAndCheck redis other limit' windowSec' now).2 := by
  refine ⟨recorded_of_ne ne logged.recorded, fun later hlater => ?_⟩
  simp only [incrementAndCheck, Sets.found_expire_of_ne ne, Sets.found_modify_of_ne ne]
  exact logged.only later hlater

end Counting

/-! ### Runs -/

section Runs

variable {decimal : Char → Bool} {rule : Rule} {key : String} {arrivals : List Arrival}
  {redis : Sets FloatText} {a : Arrival}

variable (decimal) in
/-- Every key that some request can be counted under has its log. -/
def AllLogged (arrivals : List Arrival) (redis : Sets FloatText) : Prop :=
  ∀ rule key, (∃ request, selected decimal request rateLimitRules = some (rule, key)) →
    Logged key rule.windowSec (moments decimal rule key arrivals) redis

theorem moments_le (inOrder : InOrder (arrivals ++ [a])) :
    ∀ t ∈ moments decimal rule key arrivals, t ≤ a.now := by
  intro t ht
  obtain ⟨b, hb, rfl⟩ := List.mem_map.mp ht
  exact (List.pairwise_append.mp inOrder).2.2 b (List.mem_filter.mp hb).1 a
    (List.mem_singleton_self a)

theorem moments_epoch (epoch : SinceEpoch (arrivals ++ [a])) :
    ∀ t ∈ moments decimal rule key arrivals ++ [a.now], 0 ≤ t := by
  intro t ht
  obtain ht | ht := List.mem_append.mp ht
  · obtain ⟨b, hb, rfl⟩ := List.mem_map.mp ht
    exact epoch b (List.mem_append_left _ (List.mem_filter.mp hb).1)
  · rw [List.mem_singleton.mp ht]
    exact epoch a (by simp)

/-- One request: its answer, and the logs after it. -/
theorem dispatch_decided (logged : AllLogged decimal arrivals redis)
    (inOrder : InOrder (arrivals ++ [a])) (epoch : SinceEpoch (arrivals ++ [a])) :
    (dispatch decimal a.request a.now (some redis)).1 = decision decimal arrivals a ∧
      ∃ redis', (dispatch decimal a.request a.now (some redis)).2 = some redis' ∧
        AllLogged decimal (arrivals ++ [a]) redis' := by
  cases h : selected decimal a.request rateLimitRules with
  | none =>
      simp only [dispatch, applyRules_eq, decision, h]
      refine ⟨trivial, redis, rfl, fun rule key countable => ?_⟩
      rw [moments_concat, if_neg fun counted => ?_, List.append_nil]
      · exact logged rule key countable
      · rw [CountedBy, h] at counted
        cases counted
  | some own =>
      obtain ⟨rule, key⟩ := own
      have before := @moments_le decimal rule key _ _ inOrder
      have since := @moments_epoch decimal rule key _ _ epoch
      have log := logged rule key ⟨_, h⟩
      constructor
      · simp only [dispatch, applyRules_eq, decision, h, SlidingLog.Accepts,
          count_eq log before since, gt_iff_lt, ← not_le, ite_not]
        split
        · next fits => exact (if_pos fits).symm
        · next beyond => exact (if_neg beyond).symm
      · refine ⟨_, (dispatch_counted redis a.now h).1, fun rule' key' countable => ?_⟩
        rw [moments_concat]
        by_cases same : key' = key
        · -- Under this key only this rule counts.
          subst same
          obtain ⟨request, hrequest⟩ := countable
          have mine := selected_mem h
          have its := selected_mem hrequest
          have := rule_of_key its.1 mine.1 its.2 mine.2
          subst this
          rw [if_pos (show CountedBy decimal rule' key' a from h)]
          exact logged_increment log before since
        · rw [if_neg fun counted => ?_, List.append_nil]
          · exact (logged rule' key' countable).other same
          · rw [CountedBy, h] at counted
            cases counted
            exact same rfl

/-- The middleware and its sorted sets answer as the sliding logs of the requests. -/
theorem serve_eq_decisions (inOrder : InOrder arrivals) (epoch : SinceEpoch arrivals) :
    (serve decimal (some .empty) arrivals).1 = decisions decimal [] arrivals := by
  suffices run : (serve decimal (some .empty) arrivals).1 = decisions decimal [] arrivals ∧
      ∃ redis, (serve decimal (some .empty) arrivals).2 = some redis ∧
        AllLogged decimal arrivals redis from run.1
  induction arrivals using List.reverseRecOn with
  | nil =>
      refine ⟨rfl, .empty, rfl, fun rule key _ => ⟨fun t ht => ?_, fun now _ e he => ?_⟩⟩
      · cases ht
      · cases he
  | append_singleton arrivals a ih =>
      have before := List.sublist_append_left arrivals [a]
      obtain ⟨answers, redis, state, logged⟩ := ih (inOrder.sublist before)
        fun b hb => epoch b (before.subset hb)
      obtain ⟨answer, redis', state', logged'⟩ := dispatch_decided logged inOrder epoch
      rw [serve_concat, decisions_concat, answers, state, answer, state']
      exact ⟨rfl, redis', rfl, logged'⟩

/-- Two clients; the second request of the first one falls together with its first. -/
theorem serve_eq_decisions_two :
    (serve Char.isDigit (some .empty)
        [⟨⟨"/api/v1/portal/register", some "10.0.0.1", none⟩, 100⟩,
          ⟨⟨"/api/v1/portal/register", some "10.0.0.1", none⟩, 100⟩,
          ⟨⟨"/api/v1/portal/register", some "10.0.0.2", none⟩, 101⟩]).1 =
      decisions Char.isDigit []
        [⟨⟨"/api/v1/portal/register", some "10.0.0.1", none⟩, 100⟩,
          ⟨⟨"/api/v1/portal/register", some "10.0.0.1", none⟩, 100⟩,
          ⟨⟨"/api/v1/portal/register", some "10.0.0.2", none⟩, 101⟩] :=
  serve_eq_decisions (by decide +kernel) (by decide +kernel)

/-- The moments at which a key is let through are those that its log accepts. -/
theorem letThrough_decisions (arrivals : List Arrival) :
    letThrough decimal rule key (decisions decimal [] arrivals) =
      SlidingLog.accepted (rule.windowSec : ℚ) rule.limit (moments decimal rule key arrivals) := by
  induction arrivals using List.reverseRecOn with
  | nil => rfl
  | append_singleton arrivals a ih =>
      rw [decisions_concat, List.nil_append, letThrough_concat, moments_concat, ih]
      by_cases counted : CountedBy decimal rule key a
      · have own : decision decimal arrivals a = .next ↔ SlidingLog.Accepts (rule.windowSec : ℚ)
            rule.limit (moments decimal rule key arrivals) a.now := by
          rw [decision, show selected decimal a.request rateLimitRules = some (rule, key) from counted]
          simp
        rw [if_pos counted, SlidingLog.accepted_concat]
        simp only [counted, own, true_and]
      · rw [if_neg counted, if_neg fun h => counted h.1, List.append_nil, List.append_nil]

/-- However the requests of a key come, in no window are they let through at more different
moments than the rule allows. -/
theorem moments_limited (inOrder : InOrder arrivals) (epoch : SinceEpoch arrivals)
    {inside : ℚ → Bool} (window : IsWindow rule.windowSec inside) :
    ((letThrough decimal rule key (serve decimal (some .empty) arrivals).1).filter
      inside).dedup.length ≤ rule.limit := by
  rw [serve_eq_decisions inOrder epoch, letThrough_decisions]
  exact SlidingLog.accepted_le _ window

/-- Six registrations at one moment are all let through; that is one moment. -/
theorem moments_limited_burst :
    ((letThrough Char.isDigit
        ⟨⟨"^/api/v\\d+/portal/register", ["portal/register"]⟩, 5, 60, .ip⟩
        "rl:ip:10.0.0.1:^/api/v\\d+/portal/register"
        (serve Char.isDigit (some .empty)
          (List.replicate 6
            ⟨⟨"/api/v1/portal/register", some "10.0.0.1", none⟩, 100⟩)).1).filter
      fun t => decide (t = 100)).dedup.length ≤ 5 := by
  refine moments_limited (by decide +kernel) (by decide +kernel) fun s t hs ht => ?_
  rw [of_decide_eq_true hs, of_decide_eq_true ht]
  norm_num

end Runs

end RateLimitMiddleware

end AcojWorker
