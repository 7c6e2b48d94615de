import AcojWorker.Effect.Invariant
import AcojWorker.Security.SessionSteps

/-!
# Logout

A deleted session stays deleted as long as nobody writes it. `touch` and the refresh write what
they have read before, so one that has read the session and is still to write it brings it
back; a login under way does so too. If at the moment of the deletion every other method under
way is quiet, that is, writes the session only after finding it there once more, and no login
of the token follows, then the session is gone for good.
-/

namespace AcojWorker.SessionStore

open Python Effect Grouping

variable {settings : AuthSettings} {failures : Prop} {token : String}

/-! ### Quiet programs -/

/-- The session is absent, and nobody writes it. -/
def absence (failures : Prop) (token : String) : Guard (redis failures) where
  inv w := w.strings (loginTokenKey token) = none
  good op _ := ¬ Writes token op
  drift_ok absent later := later.absent absent

/-- The program does not write the session of the token while it is absent, whatever comes
between two of its commands. -/
def Quiet {α : Type} (failures : Prop) (token : String) (p : Storing α) : Prop :=
  (absence failures token).Maintains p fun _ => True

theorem quiet_of_calls {α : Type} {p : Storing α} (other : p.Calls fun op => ¬ Writes token op) :
    Quiet failures token p :=
  Guard.maintains_calls other (fun _ _ h _ => h) fun _ _ _ _ _ h absent exec =>
    absent_exec exec h absent

/-- The answer to a reading command while the session is absent. -/
theorem maintains_read {op : SessionOp} {Q : op.Answer → Prop} (other : ¬ Writes token op)
    (answer : ∀ w a w', w.strings (loginTokenKey token) = none → answers w op a w' → Q a) :
    (absence failures token).Maintains (call op) Q := by
  refine Guard.maintains_perform (fun _ _ => other) fun t w r w' absent exec => ?_
  refine ⟨absent_exec exec other absent, ?_⟩
  rintro a rfl
  exact answer w a w' absent exec

theorem quiet_touch (token' : String) : Quiet failures token (touch settings token') := by
  by_cases same : token' = token
  · subst same
    refine Guard.maintains_tryCatch ?_ fun _ => Guard.maintains_ret trivial
    refine Guard.maintains_bind (R := fun found => found = none) ?_ ?_
    · exact maintains_read id fun w a w' absent answer => answer.1.trans absent
    · rintro found rfl
      exact Guard.maintains_ret trivial
  · apply quiet_of_calls
    exact calls_touch settings (fun _ => id) id fun _ _ own => same (loginTokenKey_inj.mp own)

/-- The sessions of a refresh that are found: not the absent one. -/
theorem mem_existing {tokenTargets : List (String × Target)} {w : World}
    {entries : List ((String × Target) × Option SessionPayload)}
    (zipped : zipStrict tokenTargets
      ((tokenTargets.map fun entry => loginTokenKey entry.1).map w.strings) = .ok entries) :
    ∀ entry ∈ entries, entry.2 = w.strings (loginTokenKey entry.1.1) := by
  rw [zipStrict, List.length_map, List.length_map, if_neg (lt_irrefl _), if_neg (lt_irrefl _)]
    at zipped
  cases zipped
  intro entry h
  rw [List.map_map, List.zip_map_right, List.mem_map] at h
  obtain ⟨⟨a, b⟩, hab, rfl⟩ := h
  have same : a = b := by
    rw [List.zip_eq_zipWith, List.zipWith_self, List.mem_map] at hab
    obtain ⟨c, _, hc⟩ := hab
    cases hc
    rfl
  subst same
  rfl

/-- No update of a refresh is of the absent session. -/
theorem maintains_updates {w : World} {entries : List ((String × Target) × Option SessionPayload)}
    (absent : w.strings (loginTokenKey token) = none)
    (found : ∀ entry ∈ entries, entry.2 = w.strings (loginTokenKey entry.1.1)) :
    (absence failures token).Maintains (entries.foldlM refreshSession [])
      fun updates => ∀ u ∈ updates, u.2 ≠ token := by
  refine Guard.maintains_foldlM (fun updates others entry mem => ?_)
    fun u hu => absurd hu List.not_mem_nil
  obtain ⟨⟨token', target⟩, existing⟩ := entry
  cases existing with
  | none => exact Guard.maintains_ret others
  | some session =>
      have there := found _ mem
      have other : ¬ Writes token (.payloadFactory target token') := id
      have asked : Quiet failures token (call (.payloadFactory target token')) :=
        quiet_of_calls (Program.calls_perform other)
      change (absence failures token).Maintains (call (.payloadFactory target token') >>=
        fun refreshed => pure (updates ++ [(refreshed, token')])) _
      apply Guard.maintains_step asked
      intro refreshed
      apply Guard.maintains_ret
      intro u hu
      obtain hu | hu := List.mem_append.mp hu
      · exact others u hu
      · rw [List.mem_singleton.mp hu]
        rintro rfl
        rw [absent] at there
        cases there

theorem quiet_refreshTokens (tokenTargets : List (String × Target)) :
    Quiet failures token (refreshTokens settings tokenTargets) := by
  have read : (absence failures token).Maintains
      (call (.mget (tokenTargets.map fun entry => loginTokenKey entry.1)))
      fun existing => ∃ w : World, w.strings (loginTokenKey token) = none ∧
        existing = (tokenTargets.map fun entry => loginTokenKey entry.1).map w.strings :=
    maintains_read id fun w a w' absent answer => ⟨w, absent, answer.1⟩
  refine Guard.maintains_ite (fun _ => Guard.maintains_ret trivial) fun _ => ?_
  apply Guard.maintains_bind read
  rintro _ ⟨w, absent, rfl⟩
  have zipped : (absence failures token).Maintains (liftM (zipStrict tokenTargets
      ((tokenTargets.map fun entry => loginTokenKey entry.1).map w.strings)) : Storing _)
      fun entries => ∀ entry ∈ entries, entry.2 = w.strings (loginTokenKey entry.1.1) :=
    Guard.maintains_lift fun entries zipped => mem_existing zipped
  apply Guard.maintains_bind zipped
  intro entries found
  apply Guard.maintains_bind (maintains_updates absent found)
  intro updates others
  refine Guard.maintains_ite (fun _ => Guard.maintains_ret trivial) fun _ => ?_
  apply quiet_of_calls
  exact Program.calls_perform fun ⟨u, hu, own⟩ => others u hu own

theorem quiet_refresh (targets factories : List Target) :
    Quiet failures token (refreshAccountsSessions settings targets factories) := by
  refine Guard.maintains_ite (fun _ => Guard.maintains_ret trivial) fun _ => ?_
  exact Guard.maintains_step (quiet_of_calls (calls_getAccountsTokens (fun _ => id) _))
    fun tokenMap => quiet_refreshTokens _

/-! ### Methods that may follow -/

/-- The method logs the token in. -/
def Method.logsIn (token : String) : Method → Bool
  | .set payload _ => payload.token = token
  | _ => false

def Starts (settings : AuthSettings) (p : Storing Unit) : Prop :=
  ∃ method : Method, p = method.program settings

/-- Any method may be called, but no login of the token. -/
def StartsWithout (settings : AuthSettings) (token : String) (p : Storing Unit) : Prop :=
  ∃ method : Method, method.logsIn token = false ∧ p = method.program settings

theorem quiet_method {method : Method} (other : method.logsIn token = false) :
    Quiet failures token (method.program settings) := by
  have reads : ∀ method : Method, method.writes = false →
      Quiet failures token (method.program settings) := fun method reads =>
    quiet_of_calls (Program.calls_mono (calls_no_write settings reads)
      fun op no_write writes => no_write (isWrite_of_writes writes))
  cases method with
  | set payload ttl =>
      apply quiet_of_calls
      refine calls_set (fun own => ?_) fun _ _ => id
      exact of_decide_eq_false other (loginTokenKey_inj.mp own)
  | touch token' => exact quiet_touch token'
  | refreshAccountsSessions targets factories => exact quiet_refresh targets factories
  | _ => exact reads _ rfl

/-! ### Deletions -/

/-- The command that deletes the session, with its answer. -/
def IsDeletion (token : String) (e : Event SessionCalls Exc) : Prop :=
  ∃ keys, loginTokenKey token ∈ keys ∧ e = ⟨.delete keys, .ok ()⟩

theorem deleteKeys_deletes {keys : List String} {τ : Trace SessionCalls Exc}
    (h : (deleteKeys keys).Yields τ (.ok ())) (listed : loginTokenKey token ∈ keys) :
    ∃ e ∈ τ, IsDeletion token e := by
  have unique : loginTokenKey token ∈ distinct keys := mem_distinct.mpr listed
  rw [deleteKeys, if_neg (List.ne_nil_of_mem unique)] at h
  obtain ⟨a, sent, _⟩ | ⟨e, τ₁, τ₂, _, fallback, rfl⟩ := Program.yields_tryCatch h
  · rw [Program.yields_perform sent]
    exact ⟨_, List.mem_singleton_self _, _, unique, rfl⟩
  · split at fallback
    · obtain ⟨_, _, τ', one, inside⟩ := Program.yields_foldlM fallback _ unique
      rw [Program.yields_perform one] at inside
      refine ⟨_, List.mem_append_right τ₁ (inside (List.mem_singleton_self _)), _,
        List.mem_singleton_self _, rfl⟩
    · cases fallback

/-- A logout that has completed has deleted the session. -/
theorem delete_deletes {τ : Trace SessionCalls Exc}
    (h : (SessionStore.delete settings token).Yields τ (.ok ())) : ∃ e ∈ τ, IsDeletion token e := by
  obtain ⟨_, _, out⟩ | ⟨payload, τ₁, τ₂, _, rest, rfl⟩ := Program.yields_bind h
  · cases out
  · obtain ⟨_, _, out⟩ | ⟨_, τ₃, τ₄, deleted, _, rfl⟩ := Program.yields_bind rest
    · cases out
    · obtain ⟨e, he, deletion⟩ := deleteKeys_deletes deleted (List.mem_singleton_self _)
      exact ⟨e, List.mem_append_right _ (List.mem_append_left _ he), deletion⟩

/-- The rows that were read are the rows of the map. -/
theorem getAccountsTokens_rows {targets : List Target} {τ : Trace SessionCalls Exc}
    {tokenMap : List (Target × List String)}
    (h : (getAccountsTokens targets).Yields τ (.ok tokenMap)) {keys : List String}
    {rows : List (List String)} (read : ⟨.smembersMany keys, .ok rows⟩ ∈ τ) {row : List String}
    (hrow : row ∈ rows) : ∃ target, (target, row) ∈ tokenMap := by
  rw [getAccountsTokens] at h
  split at h
  · cases h
    cases read
  · obtain ⟨_, _, out⟩ | ⟨rows', τ₁, τ₂, sent, zipped, rfl⟩ := Program.yields_bind h
    · cases out
    · obtain ⟨rfl, out⟩ := Program.yields_lift zipped
      rw [Program.yields_perform sent, List.append_nil, List.mem_singleton] at read
      cases read
      rw [zipStrict] at out
      split at out
      · cases out
      · split at out
        · cases out
        · next notShorter notLonger =>
          cases out
          obtain ⟨i, hi, rfl⟩ := List.mem_iff_getElem.mp hrow
          have hi' : i < (distinct targets).length := by omega
          refine ⟨(distinct targets)[i], List.mem_iff_getElem.mpr ⟨i, ?_, ?_⟩⟩
          · rw [List.length_zip]
            omega
          · rw [List.getElem_zip]

/-- A bulk deletion that has completed has deleted the sessions it found listed. -/
theorem deleteAccountsSessions_deletes {targets : List Target} {τ : Trace SessionCalls Exc}
    (h : (deleteAccountsSessions targets).Yields τ (.ok ())) {keys : List String}
    {rows : List (List String)} (read : ⟨.smembersMany keys, .ok rows⟩ ∈ τ) {row : List String}
    (hrow : row ∈ rows) (listed : token ∈ row) : ∃ e ∈ τ, IsDeletion token e := by
  rw [deleteAccountsSessions] at h
  simp only at h
  split at h
  · cases h
    cases read
  · obtain ⟨_, _, out⟩ | ⟨tokenMap, τ₁, τ₂, map, rest, rfl⟩ := Program.yields_bind h
    · cases out
    · obtain ⟨_, _, out⟩ | ⟨_, τ₃, τ₄, deleted, last, rfl⟩ := Program.yields_bind rest
      · cases out
      · have no_read : ∀ τ' : Trace SessionCalls Exc,
            (∀ e ∈ τ', ∀ keys, e.op ≠ SessionOp.smembersMany keys) →
            ⟨.smembersMany keys, .ok rows⟩ ∉ τ' := fun τ' other h => other _ h keys rfl
        have read₁ : ⟨.smembersMany keys, .ok rows⟩ ∈ τ₁ := by
          obtain h | h := List.mem_append.mp read
          · exact h
          · obtain h | h := List.mem_append.mp h
            · refine absurd h (no_read τ₃ ?_)
              exact Program.yields_calls (C := fun op => ∀ keys, op ≠ SessionOp.smembersMany keys)
                deleted (calls_deleteKeys (fun _ _ => nofun) _)
            · refine absurd h (no_read τ₄ ?_)
              apply Program.yields_calls (C := fun op => ∀ keys, op ≠ SessionOp.smembersMany keys)
                last
              exact Program.calls_ite (fun _ => Program.calls_perform fun _ => nofun) fun _ => trivial
        obtain ⟨target, hmap⟩ := getAccountsTokens_rows map read₁ hrow
        have key : loginTokenKey token ∈ distinct
            ((distinct (tokenMap.flatMap Prod.snd)).map loginTokenKey ++
              (distinct targets).map Target.key) := by
          rw [mem_distinct]
          apply List.mem_append_left
          apply List.mem_map_of_mem
          rw [mem_distinct]
          exact List.mem_flatMap.mpr ⟨_, hmap, listed⟩
        obtain ⟨e, he, deletion⟩ := deleteKeys_deletes deleted key
        exact ⟨e, List.mem_append_right _ (List.mem_append_left _ he), deletion⟩

/-! ### The end of a session -/

/-- No `get` that starts now returns a session. -/
def Ended (settings : AuthSettings) (failures : Prop) (token : String) (w : World) : Prop :=
  ∀ t τ session w',
    ¬ (get settings token).Performs (redis failures) t w τ (.ok (some session)) w'

theorem ended_of_absent {w : World} (absent : w.strings (loginTokenKey token) = none) :
    Ended settings failures token w := by
  intro t τ session w' h
  rw [performs_get h] at absent
  cases absent

/-- No rule restricts the commands. -/
def Free : Nat → SessionOp → World → Prop := fun _ _ _ => True

/-- The runs in which the methods `starts` allows are called. -/
abbrev Steps (failures : Prop) (starts : Storing Unit → Prop) :
    Pool SessionCalls Exc World → Pool SessionCalls Exc World → Prop :=
  Relation.ReflTransGen (Pool.Step (redis failures) starts Free)

/-- The pool after thread `t` has deleted the keys. -/
abbrev deleted (c : Pool SessionCalls Exc World) (t : Nat) (keys : List String)
    (next : Except Exc Unit → Storing Unit) : Pool SessionCalls Exc World :=
  ⟨Function.update c.threads t (some (next (.ok ()))), c.state.delete keys⟩

/-- What is left of a method after it has deleted keys writes no session. -/
theorem quiet_after_delete {w₀ : World} {c : Pool SessionCalls Exc World} {t : Nat}
    {keys : List String} {next : Except Exc Unit → Storing Unit}
    (reached : Pool.Reachable (redis failures) (Starts settings) Free w₀ c)
    (at_delete : c.threads t = some (.call (.delete keys) next)) (r : Except Exc Unit) :
    Quiet failures token (next r) := by
  have all : ∀ t p, c.threads t = some p →
      p.Calls (fun op => ¬ IsDelete op) ∨ p.Calls (fun op => ¬ IsWrite op) := by
    refine threads_run ?_ ?_ reached nofun
    · rintro _ ⟨method, rfl⟩
      exact calls_method settings method
    · rintro op next (calls | calls) r
      · exact .inl (calls.2 r)
      · exact .inr (calls.2 r)
  obtain calls | calls := all t _ at_delete
  · exact absurd trivial calls.1
  · exact quiet_of_calls (Program.calls_mono (calls.2 r)
      fun op no_write writes => no_write (isWrite_of_writes writes))

/-- From the deletion on, if the other methods under way are quiet then and no login of the
token follows, `get` returns no session. A logout, and a bulk deletion that found the token
listed, make such a deletion before they complete. -/
theorem logout_final (settings : AuthSettings) (failures : Prop) (token : String) :
    (∀ τ, (SessionStore.delete settings token).Yields τ (.ok ()) → ∃ e ∈ τ, IsDeletion token e) ∧
    (∀ targets τ, (deleteAccountsSessions targets).Yields τ (.ok ()) →
      ∀ keys rows, ⟨.smembersMany keys, .ok rows⟩ ∈ τ → ∀ row ∈ rows, token ∈ row →
        ∃ e ∈ τ, IsDeletion token e) ∧
    ∀ w₀ c t keys next c',
      Pool.Reachable (redis failures) (Starts settings) Free w₀ c →
      c.threads t = some (.call (.delete keys) next) → loginTokenKey token ∈ keys →
      (∀ u p, u ≠ t → c.threads u = some p → Quiet failures token p) →
      Steps failures (StartsWithout settings token) (deleted c t keys next) c' →
      Ended settings failures token c'.state := by
  refine ⟨fun τ => delete_deletes, fun targets τ h keys rows read row hrow listed =>
    deleteAccountsSessions_deletes h read hrow listed, ?_⟩
  intro w₀ c t keys next c' reached at_delete listed others run
  apply ended_of_absent
  have programs : ∀ p, StartsWithout settings token p → Quiet failures token p := by
    rintro _ ⟨method, other, rfl⟩
    exact quiet_method other
  refine Guard.steps (g := absence failures token) programs ?_ ?_ run
  · change (if loginTokenKey token ∈ keys then none else _) = none
    rw [if_pos listed]
  · intro u p hu
    change Function.update c.threads t _ u = some p at hu
    by_cases same : u = t
    · subst same
      rw [Function.update_self] at hu
      cases hu
      exact quiet_after_delete reached at_delete _
    · rw [Function.update_of_ne same] at hu
      exact others u p same hu

/-! ### A request that is still writing -/

/-- The keys a method is about to delete. -/
def nextDeletion : Option (Storing Unit) → Option (List String)
  | some (.call (.delete keys) _) => some keys
  | _ => none

theorem nextDeletion_eq_some {p : Option (Storing Unit)} {keys : List String}
    (h : nextDeletion p = some keys) : ∃ next, p = some (.call (.delete keys) next) := by
  unfold nextDeletion at h
  split at h
  · next keys' next =>
    cases h
    exact ⟨next, rfl⟩
  · cases h

def hasReturned : Option (Storing Unit) → Bool
  | some (.ret _) => true
  | _ => false

theorem hasReturned_eq_true {p : Option (Storing Unit)} (h : hasReturned p = true) :
    p = some (.ret ()) := by
  unfold hasReturned at h
  split at h
  · rfl
  · cases h

/-- A login of the token `"t"`. -/
def loggingIn : List (Effect.Move SessionCalls Exc) :=
  [.start 0 (set { token := "t", accountId := "7", accountType := "ADMIN" } 14400),
    .turn 0, .turn 0, .turn 0, .turn 0]

/-- The methods of `loggingIn` and of what follows it here. -/
theorem starts_of_mem {t : Nat} {p : Storing Unit} {more : List (Effect.Move SessionCalls Exc)}
    (further : ∀ t p, .start t p ∈ more → Starts defaultSettings p)
    (h : .start t p ∈ loggingIn ++ more) : Starts defaultSettings p := by
  obtain h | h := List.mem_append.mp h
  · simp only [loggingIn, List.mem_cons, List.not_mem_nil, or_false, Move.start.injEq,
      reduceCtorEq] at h
    exact ⟨.set _ _, h.2⟩
  · exact further t p h

/-- `touch` reads the session, a logout deletes it and completes, and `touch` writes it back. -/
theorem logout_not_final : ¬ ∀ w₀ c t keys next c₁ c₂,
    Pool.Reachable (redis False) (Starts defaultSettings) Free w₀ c →
    c.threads t = some (.call (.delete keys) next) → loginTokenKey "t" ∈ keys →
    Steps False (Starts defaultSettings) (deleted c t keys next) c₁ →
    c₁.threads t = some (.ret ()) →
    Steps False (StartsWithout defaultSettings "t") c₁ c₂ →
    Ended defaultSettings False "t" c₂.state := by
  intro final
  have follows : ∀ t : Nat, reply.Follows (redis False) Free t := reply_follows False
  let before : List (Effect.Move SessionCalls Exc) := loggingIn ++
    [.start 0 (touch defaultSettings "t"), .turn 0,
      .start 1 (SessionStore.delete defaultSettings "t"), .turn 1]
  let c := (idlePool .empty).after (fun _ => reply) before
  let c₁ := c.after (fun _ => reply) [.turn 1, .turn 1, .turn 1]
  let c₂ := c₁.after (fun _ => reply) [.turn 0, .turn 0]
  have play₀ : (idlePool .empty).play (fun _ => reply) before = some c :=
    play_after (by decide +kernel)
  have play₁ : c.play (fun _ => reply) [.turn 1, .turn 1, .turn 1] = some c₁ :=
    play_after (by decide +kernel)
  have play₂ : c₁.play (fun _ => reply) [.turn 0, .turn 0] = some c₂ :=
    play_after (by decide +kernel)
  obtain ⟨next, at_delete⟩ := nextDeletion_eq_some
    (show nextDeletion (c.threads 1) = some ["login:token:t"] by decide +kernel)
  have returned : c₁.threads 1 = some (.ret ()) := hasReturned_eq_true (by decide +kernel)
  have play₁' : (deleted c 1 ["login:token:t"] next).play (fun _ => reply) [.turn 1, .turn 1] =
      some c₁ := by
    have turn : c.turn (fun _ => reply) 1 = some (deleted c 1 ["login:token:t"] next) :=
      turn_call at_delete rfl
    rw [Pool.play, Pool.move, turn] at play₁
    exact play₁
  have reached : Pool.Reachable (redis False) (Starts defaultSettings) Free .empty c := by
    apply steps_play follows (fun t p h => starts_of_mem ?_ h) play₀
    intro t p h
    simp only [List.mem_cons, List.not_mem_nil, or_false, Move.start.injEq, reduceCtorEq,
      false_or] at h
    obtain ⟨_, rfl⟩ | ⟨_, rfl⟩ := h
    · exact ⟨.touch _, rfl⟩
    · exact ⟨.delete _, rfl⟩
  have completes : Steps False (Starts defaultSettings) (deleted c 1 ["login:token:t"] next) c₁ :=
    steps_play follows (fun t p h => by simp at h) play₁'
  have writes : Steps False (StartsWithout defaultSettings "t") c₁ c₂ :=
    steps_play follows (fun t p h => by simp at h) play₂
  obtain ⟨session, found⟩ : ∃ session, sessionFound defaultSettings "t" c₂.state = some session :=
    Option.isSome_iff_exists.mp (by decide +kernel)
  obtain ⟨τ, w', performs⟩ := sessionFound_performs False 0 found
  exact final .empty c 1 _ next c₁ c₂ reached at_delete (by decide) completes returned writes
    0 τ session w' performs

/-- A logout with nothing else under way. -/
theorem logout_final_alone : ∃ c keys next,
    c.threads 1 = some (.call (.delete keys) next) ∧
    Ended defaultSettings False "t" (deleted c 1 keys next).state := by
  have follows : ∀ t : Nat, reply.Follows (redis False) Free t := reply_follows False
  let before : List (Effect.Move SessionCalls Exc) := loggingIn ++
    [.start 1 (SessionStore.delete defaultSettings "t"), .turn 1]
  let c := (idlePool .empty).after (fun _ => reply) before
  have play : (idlePool .empty).play (fun _ => reply) before = some c :=
    play_after (by decide +kernel)
  obtain ⟨next, at_delete⟩ := nextDeletion_eq_some
    (show nextDeletion (c.threads 1) = some ["login:token:t"] by decide +kernel)
  have reached : Pool.Reachable (redis False) (Starts defaultSettings) Free .empty c := by
    apply steps_play follows (fun t p h => starts_of_mem ?_ h) play
    intro t p h
    simp only [List.mem_cons, List.not_mem_nil, or_false, Move.start.injEq, reduceCtorEq] at h
    exact ⟨.delete _, h.2⟩
  have alone : ∀ u p, u ≠ 1 → c.threads u = some p → Quiet False "t" p := by
    intro u p other hu
    have idle : c.threads u = none := by
      by_cases first : u = 0
      · exact first ▸ Option.isNone_iff_eq_none.mp (by decide +kernel)
      · have untouched : ∀ next ∈ before, next.thread ≠ u := by
          simp only [before, loggingIn, List.cons_append, List.nil_append, List.forall_mem_cons,
            Move.thread]
          exact ⟨Ne.symm first, Ne.symm first, Ne.symm first, Ne.symm first, Ne.symm first,
            Ne.symm other, Ne.symm other, fun _ h => absurd h List.not_mem_nil⟩
        exact play_threads untouched play
    rw [idle] at hu
    cases hu
  exact ⟨c, _, next, at_delete, (logout_final defaultSettings False "t").2.2 .empty c 1 _ next _
    reached at_delete (by decide) alone .refl⟩

end AcojWorker.SessionStore
