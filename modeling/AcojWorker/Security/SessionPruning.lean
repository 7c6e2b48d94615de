import AcojWorker.Security.SessionSteps

/-!
# Pruning the sessions of an account

An account may have so many sessions and no more: the oldest logins are deleted. The store is
looked at while nothing else happens and the clock stands still, so that every command succeeds
and finds what the one before it left.
-/

namespace AcojWorker.SessionStore

open Python Effect Grouping

/-- The store while nothing else happens. -/
def still : Machine SessionCalls Exc World where
  exec := (redis False).exec
  drift _ _ := False

/-- What `get` makes of a token: its session, unless it is idle. -/
def liveSession (settings : AuthSettings) (w : World) (token : String) : Option SessionPayload :=
  match w.strings (loginTokenKey token) with
  | none => none
  | some session =>
      if settings.sessionIdleTimeoutSeconds ≤ 0 ∨ session.lastActiveAt = none then some session
      else if session.idleAt settings w.clock then none
      else some session

/-- The live sessions of an account. -/
def accountSessions (settings : AuthSettings) (w : World) (target : Target) : List SessionPayload :=
  (distinct (w.sets target.key)).filterMap (liveSession settings w)

/-- What is kept under the tokens of an account are sessions of that account. -/
def Belongs (w : World) (target : Target) : Prop :=
  ∀ token ∈ w.sets target.key, ∀ session, w.strings (loginTokenKey token) = some session →
    session.token = token ∧ (session.accountType, session.accountId) = target

/-! ### The methods while nothing else happens -/

section Still

variable {settings : AuthSettings} {t : Nat} {w w' : World} {τ : Trace SessionCalls Exc}

theorem still_run (run : Relation.ReflTransGen still.drift w w') : w' = w := by
  cases run with
  | refl => rfl
  | tail _ impossible => exact impossible.elim

/-- A command is answered. -/
theorem performs_command {op : SessionOp} {out : Except Exc op.Answer}
    (h : (call op).Performs still t w τ out w')
    (command : ∀ target token, op ≠ .payloadFactory target token) :
    ∃ a, out = .ok a ∧ answers w op a w' := by
  obtain ⟨-, w₁, w₂, before, exec, after⟩ := performs_perform h
  obtain rfl := still_run before
  obtain rfl := still_run after
  cases out with
  | ok a => exact ⟨a, rfl, exec⟩
  | error e =>
      obtain ⟨-, impossible | ⟨target, token, same⟩⟩ := exec
      · exact impossible.elim
      · exact absurd same (command target token)

theorem performs_still_ret {α : Type} {a : α} {out : Except Exc α}
    (h : (Program.ret a : Storing α).Performs still t w τ out w') : out = .ok a ∧ w' = w := by
  obtain ⟨-, rfl, run⟩ := performs_ret h
  exact ⟨rfl, still_run run⟩

/-- A command that comes first. -/
theorem performs_then {α : Type} {op : SessionOp} {next : op.Answer → Storing α}
    {out : Except Exc α} (h : (call op >>= next).Performs still t w τ out w')
    (command : ∀ target token, op ≠ .payloadFactory target token) :
    ∃ a w₁ τ₂, answers w op a w₁ ∧ (next a).Performs still t w₁ τ₂ out w' := by
  obtain ⟨a, τ₁, τ₂, w₁, first, rest, -⟩ := performs_step h fun _ _ _ raised => by
    obtain ⟨_, impossible, -⟩ := performs_command raised command
    exact nomatch impossible
  obtain ⟨_, same, answered⟩ := performs_command first command
  cases same
  exact ⟨_, w₁, τ₂, answered, rest⟩

theorem performs_get_still {token : String} {out : Except Exc (Option SessionPayload)}
    (h : (get settings token).Performs still t w τ out w') :
    out = .ok (liveSession settings w token) ∧ w' = w := by
  rw [get] at h
  obtain ⟨found, w₁, τ₁, ⟨rfl, rfl⟩, rest⟩ := performs_then h (by rintro _ _ ⟨⟩)
  rw [liveSession]
  cases there : w₁.strings (loginTokenKey token) with
  | none =>
      rw [there] at rest
      exact performs_still_ret rest
  | some session =>
      rw [there] at rest
      simp only [checkIdleTimeout] at rest
      simp only
      split at rest
      · next never =>
        rw [if_pos never]
        exact performs_still_ret rest
      · next limited =>
        rw [if_neg limited]
        obtain ⟨now, w₂, τ₂, ⟨rfl, rfl⟩, last⟩ := performs_then rest (by rintro _ _ ⟨⟩)
        split at last
        · next idle =>
          rw [if_pos idle]
          exact performs_still_ret last
        · next active =>
          rw [if_neg active]
          exact performs_still_ret last

theorem performs_getAccountTokens {target : Target} {out : Except Exc (List String)}
    (h : (getAccountTokens target).Performs still t w τ out w') :
    ∃ row : List String, out = .ok row ∧ row.Perm (w.sets target.key) ∧ w' = w := by
  have single : distinct [target] = [target] := rfl
  rw [getAccountTokens, getAccountsTokens] at h
  simp only [single, List.cons_ne_nil, if_false, bind_assoc] at h
  obtain ⟨rows, w₁, τ₁, ⟨answered, rfl⟩, rest⟩ := performs_then h (by rintro _ _ ⟨⟩)
  obtain ⟨row, perm, rfl⟩ : ∃ row : List String, row.Perm (w₁.sets target.key) ∧ rows = [row] := by
    cases answered with
    | cons perm none =>
        cases none
        exact ⟨_, perm, rfl⟩
  obtain ⟨rfl, rfl⟩ := performs_still_ret rest
  refine ⟨row, ?_, perm, rfl⟩
  simp

/-- A token is put to the sessions or to the stale tokens. -/
def sortToken (live : String → Option SessionPayload) (found : List SessionPayload × List String)
    (token : String) : List SessionPayload × List String :=
  match live token with
  | some session => (found.1 ++ [session], found.2)
  | none => (found.1, found.2 ++ [token])

theorem foldl_sortToken {live : String → Option SessionPayload} (tokens : List String)
    (found : List SessionPayload × List String) :
    tokens.foldl (sortToken live) found =
      (found.1 ++ tokens.filterMap live, found.2 ++ tokens.filter fun token => live token = none) := by
  induction tokens generalizing found with
  | nil => simp
  | cons token tokens ih =>
      rw [List.foldl_cons, ih, sortToken]
      cases there : live token with
      | none => simp [there]
      | some session => simp [there]

theorem performs_listSession {token : String} {found : List SessionPayload × List String}
    {out : Except Exc (List SessionPayload × List String)}
    (h : (listSession settings found token).Performs still t w τ out w') :
    out = .ok (sortToken (liveSession settings w) found token) ∧ w' = w := by
  rw [listSession] at h
  obtain ⟨live, τ₁, τ₂, w₁, first, rest, -⟩ := performs_step h fun _ _ _ raised =>
    nomatch (performs_get_still raised).1
  obtain ⟨same, rfl⟩ := performs_get_still first
  cases same
  rw [sortToken]
  cases there : liveSession settings w₁ token with
  | none =>
      rw [there] at rest
      exact performs_still_ret rest
  | some session =>
      rw [there] at rest
      exact performs_still_ret rest

theorem srem_nil (w : World) (key : String) : w.srem key [] = w := by
  have kept : (w.sets key).filter (· ∉ []) = w.sets key := by simp
  rw [World.srem, kept, World.setSet, Function.update_eq_self]

theorem performs_listSessionsByTokens {tokens : List String}
    {out : Except Exc (List SessionPayload)}
    (h : (listSessionsByTokens settings tokens).Performs still t w τ out w') :
    out = .ok ((distinct tokens).filterMap (liveSession settings w)) ∧
      w' = w.srem loginTokensKey
        ((distinct tokens).filter fun token => liveSession settings w token = none) := by
  rw [listSessionsByTokens] at h
  have loop : ∀ {τ₁ found w₁}, ((distinct tokens).foldlM (listSession settings) ([], [])).Performs
      still t w τ₁ found w₁ → found = .ok ((distinct tokens).filterMap (liveSession settings w),
        (distinct tokens).filter fun token => liveSession settings w token = none) ∧ w₁ = w := by
    intro τ₁ found w₁ loops
    have folded := performs_foldlM (R := fun s₀ s => s = s₀)
      (g := sortToken (liveSession settings w))
      (fun s s' same run => (still_run run).trans same)
      (fun found token _ s τ₂ out s' same round => same ▸ performs_listSession round) rfl loops
    rwa [foldl_sortToken] at folded
  obtain ⟨found, τ₁, τ₂, w₁, first, rest, -⟩ := performs_step h fun _ _ _ raised =>
    nomatch (loop raised).1
  obtain ⟨same, rfl⟩ := loop first
  cases same
  simp only at rest
  split at rest
  · obtain ⟨_, w₂, τ₃, answered, last⟩ := performs_then rest fun _ _ => nofun
    obtain ⟨rfl, rfl⟩ := performs_still_ret last
    exact ⟨rfl, answered⟩
  · next none =>
    obtain ⟨rfl, rfl⟩ := performs_still_ret rest
    rw [not_ne_iff.mp none, srem_nil]
    exact ⟨rfl, rfl⟩

end Still

/-! ### Deleting sessions -/

/-- The tokens are gone, and with them nothing else. -/
structure Removed (key : String) (tokens : List String) (w w' : World) : Prop where
  strings : ∀ k, w'.strings k = if k ∈ tokens.map loginTokenKey then none else w.strings k
  index : w'.sets key = (w.sets key).filter (· ∉ tokens)
  tokens : w'.sets loginTokensKey = (w.sets loginTokensKey).filter (· ∉ tokens)
  others : ∀ target : Target, target.key ≠ key → w'.sets target.key = w.sets target.key
  clock : w'.clock = w.clock

section Deleting

variable {settings : AuthSettings} {t : Nat} {w w₁ w' : World} {τ : Trace SessionCalls Exc}
  {key : String} {tokens : List String}

theorem Removed.refl : Removed key [] w w where
  strings _ := rfl
  index := by simp
  tokens := by simp
  others _ _ := rfl
  clock := rfl

theorem Removed.cons {token : String} (first : Removed key [token] w w₁)
    (rest : Removed key tokens w₁ w') : Removed key (token :: tokens) w w' where
  strings k := by
    rw [rest.strings, first.strings]
    by_cases later : k ∈ tokens.map loginTokenKey
    · simp [later]
    · simp [later]
  index := by
    rw [rest.index, first.index, List.filter_filter]
    exact List.filter_congr fun x _ => by simp [Bool.and_comm]
  tokens := by
    rw [rest.tokens, first.tokens, List.filter_filter]
    exact List.filter_congr fun x _ => by simp [Bool.and_comm]
  others target other := (rest.others target other).trans (first.others target other)
  clock := rest.clock.trans first.clock

/-- The other sessions stay as they are. -/
theorem Removed.liveSession (removed : Removed key tokens w w') (token : String) :
    liveSession settings w' token =
      if token ∈ tokens then none else liveSession settings w token := by
  have mem : loginTokenKey token ∈ tokens.map loginTokenKey ↔ token ∈ tokens :=
    List.mem_map_of_injective fun _ _ => loginTokenKey_inj.mp
  rw [SessionStore.liveSession, removed.strings, removed.clock, SessionStore.liveSession]
  by_cases gone : token ∈ tokens
  · rw [if_pos (mem.mpr gone), if_pos gone]
  · rw [if_neg (mt mem.mp gone), if_neg gone]

theorem liveSession_eq_some {token : String} {session : SessionPayload}
    (live : SessionStore.liveSession settings w token = some session) :
    w.strings (loginTokenKey token) = some session := by
  rw [SessionStore.liveSession] at live
  split at live
  · exact nomatch live
  · next found there =>
    split at live
    · exact there.trans live
    · split at live
      · exact nomatch live
      · exact there.trans live

theorem srem_other {key' : String} (tokens : List String) (other : key' ≠ key) :
    (w.srem key tokens).sets key' = w.sets key' :=
  Function.update_of_ne other _ _

theorem srem_self (tokens : List String) :
    (w.srem key tokens).sets key = (w.sets key).filter (· ∉ tokens) :=
  Function.update_self ..

theorem delete_other {key' : String} (other : key' ≠ key) :
    (w.delete [key]).sets key' = w.sets key' := by
  rw [World.delete]
  exact if_neg (mt List.mem_singleton.mp other)

/-- The three commands of a deletion. -/
theorem Removed.single (session : SessionPayload) (token : String) : Removed session.accountKey
    [token] w (((w.delete [loginTokenKey token]).srem loginTokensKey [token]).srem
      session.accountKey [token]) where
  strings k := by
    rw [World.srem_strings, World.srem_strings]
    rfl
  index := by
    have apart : session.accountKey ≠ loginTokenKey token :=
      (loginTokenKey_ne_account token (session.accountType, session.accountId)).symm
    rw [srem_self, srem_other _ (accountKey_ne_tokens session), delete_other apart]
  tokens := by
    rw [srem_other _ (accountKey_ne_tokens session).symm, srem_self,
      delete_other (loginTokenKey_ne_tokens token).symm]
  others target other := by
    have apart : target.key ≠ loginTokensKey := accountKey_ne_tokens
      { token := "", accountId := target.2, accountType := target.1 }
    rw [srem_other _ other, srem_other _ apart,
      delete_other (loginTokenKey_ne_account token target).symm]
  clock := rfl

theorem performs_deleteKeys {out : Except Exc Unit}
    (h : (deleteKeys [key]).Performs still t w τ out w') :
    out = .ok () ∧ w' = w.delete [key] := by
  have single : distinct [key] = [key] := rfl
  rw [deleteKeys] at h
  simp only [single, List.cons_ne_nil, if_false] at h
  obtain ⟨a, done, rfl⟩ | ⟨e, τ₁, τ₂, w₁, raised, -⟩ := performs_tryCatch h
  · obtain ⟨_, -, deleted⟩ := performs_command done (by rintro _ _ ⟨⟩)
    exact ⟨rfl, deleted⟩
  · obtain ⟨_, impossible, -⟩ := performs_command raised (by rintro _ _ ⟨⟩)
    cases impossible

theorem performs_delete {token : String} {session : SessionPayload} {out : Except Exc Unit}
    (live : SessionStore.liveSession settings w token = some session)
    (h : (delete settings token).Performs still t w τ out w') :
    out = .ok () ∧ Removed session.accountKey [token] w w' := by
  rw [delete] at h
  obtain ⟨found, τ₁, τ₂, w₁, first, rest, -⟩ := performs_step h fun _ _ _ raised =>
    nomatch (performs_get_still raised).1
  obtain ⟨same, rfl⟩ := performs_get_still first
  rw [live] at same
  cases same
  obtain ⟨_, τ₃, τ₄, w₂, second, later, -⟩ := performs_step rest fun _ _ _ raised =>
    nomatch (performs_deleteKeys raised).1
  obtain ⟨-, rfl⟩ := performs_deleteKeys second
  obtain ⟨_, w₃, τ₅, global, last⟩ := performs_then later fun _ _ => nofun
  obtain ⟨_, rfl, own⟩ := performs_command last fun _ _ => nofun
  have whole : w' = (w₃.srem session.accountKey [token]) := own
  have before : w₃ = ((w₁.delete [loginTokenKey token]).srem loginTokensKey [token]) := global
  refine ⟨rfl, ?_⟩
  rw [whole, before]
  exact Removed.single session token

/-- The loop over the oldest sessions. -/
theorem performs_deletes {target : Target} {sessions : List SessionPayload} {out : Except Exc Unit}
    (h : (sessions.foldlM (fun (_ : Unit) session => delete settings session.token) ()).Performs
      still t w τ out w')
    (nodup : (sessions.map SessionPayload.token).Nodup)
    (live : ∀ session ∈ sessions,
      SessionStore.liveSession settings w session.token = some session ∧
        session.accountKey = target.key) :
    out = .ok () ∧ Removed target.key (sessions.map SessionPayload.token) w w' := by
  induction sessions generalizing w τ with
  | nil =>
      obtain ⟨rfl, rfl⟩ := performs_still_ret h
      exact ⟨rfl, .refl⟩
  | cons session sessions ih =>
      obtain ⟨here, owned⟩ := live session (List.mem_cons_self ..)
      rw [List.map_cons, List.nodup_cons] at nodup
      rw [List.foldlM_cons] at h
      obtain ⟨_, τ₁, τ₂, w₁, first, rest, -⟩ := performs_step h fun _ _ _ raised =>
        nomatch (performs_delete here raised).1
      obtain ⟨-, removed⟩ := performs_delete here first
      rw [owned] at removed
      obtain ⟨done, others⟩ := ih rest nodup.2 fun other mem => by
        obtain ⟨there, owner⟩ := live other (List.mem_cons_of_mem _ mem)
        have apart : other.token ∉ [session.token] := fun same =>
          nodup.1 (List.mem_singleton.mp same ▸ List.mem_map_of_mem mem)
        rw [removed.liveSession, if_neg apart]
        exact ⟨there, owner⟩
      exact ⟨done, removed.cons others⟩

end Deleting

/-! ### Pruning -/

/-- The sessions of an account have been split into kept and removed ones, and only the removed
ones are gone. -/
structure Pruned (settings : AuthSettings) (target : Target) (maxSessions : Int) (w w' : World)
    (kept removed : List SessionPayload) : Prop where
  before : (accountSessions settings w target).Perm (removed ++ kept)
  after : (accountSessions settings w' target).Perm kept
  count : (kept.length : Int) = min ((accountSessions settings w target).length : Int) maxSessions
  oldest : ∀ r ∈ removed, ∀ k ∈ kept,
    parseDatetimeOrEpoch r.loginAt ≤ parseDatetimeOrEpoch k.loginAt
  gone : ∀ r ∈ removed, w'.strings (loginTokenKey r.token) = none ∧
    r.token ∉ w'.sets target.key ∧ r.token ∉ w'.sets loginTokensKey
  others : ∀ token session, w.strings (loginTokenKey token) = some session →
    (session.accountType, session.accountId) ≠ target →
      w'.strings (loginTokenKey token) = some session ∧
        (token ∈ w'.sets loginTokensKey ↔ token ∈ w.sets loginTokensKey)
  indexes : ∀ other : Target, other.key ≠ target.key → w'.sets other.key = w.sets other.key

section Pruning

variable {settings : AuthSettings} {t : Nat} {w w' : World} {τ : Trace SessionCalls Exc}
  {target : Target} {maxSessions : Int}

theorem target_key_ne_tokens (target : Target) : target.key ≠ loginTokensKey :=
  accountKey_ne_tokens { token := "", accountId := target.2, accountType := target.1 }

theorem distinct_perm {xs ys : List String} (same : xs.Perm ys) :
    (distinct xs).Perm (distinct ys) := by
  rw [List.perm_ext_iff_of_nodup (distinct_nodup xs) (distinct_nodup ys)]
  intro x
  rw [mem_distinct, mem_distinct, same.mem_iff]

theorem mem_accountSessions {session : SessionPayload} :
    session ∈ accountSessions settings w target ↔
      ∃ token ∈ w.sets target.key, liveSession settings w token = some session := by
  rw [accountSessions, List.mem_filterMap]
  simp only [mem_distinct]

/-- A session of the account is found under its own token. -/
theorem Belongs.live (belongs : Belongs w target) {session : SessionPayload}
    (mem : session ∈ accountSessions settings w target) :
    session.token ∈ w.sets target.key ∧ liveSession settings w session.token = some session ∧
      (session.accountType, session.accountId) = target := by
  obtain ⟨token, listed, live⟩ := mem_accountSessions.mp mem
  obtain ⟨rfl, owner⟩ := belongs token listed session (liveSession_eq_some live)
  exact ⟨listed, live, owner⟩

/-- The tokens of the sessions are the tokens with a session. -/
theorem Belongs.tokens (belongs : Belongs w target) :
    (accountSessions settings w target).map SessionPayload.token =
      (distinct (w.sets target.key)).filter fun token =>
        (liveSession settings w token).isSome := by
  have sub : ∀ token ∈ distinct (w.sets target.key), token ∈ w.sets target.key :=
    fun token mem => mem_distinct.mp mem
  rw [accountSessions]
  generalize distinct (w.sets target.key) = tokens at sub
  induction tokens with
  | nil => rfl
  | cons token tokens ih =>
      have rest := ih fun other mem => sub other (List.mem_cons_of_mem _ mem)
      cases live : liveSession settings w token with
      | none => simp [live, rest]
      | some session =>
          obtain ⟨same, -⟩ := belongs token (sub token (List.mem_cons_self ..)) session
            (liveSession_eq_some live)
          simp [live, rest, same]

theorem Belongs.nodup (belongs : Belongs w target) :
    ((accountSessions settings w target).map SessionPayload.token).Nodup := by
  rw [belongs.tokens]
  exact (distinct_nodup _).filter _

/-- The stale tokens of the account have left the global index. -/
structure Cleaned (settings : AuthSettings) (target : Target) (w w' : World) : Prop where
  strings : w'.strings = w.strings
  clock : w'.clock = w.clock
  sets : ∀ key, key ≠ loginTokensKey → w'.sets key = w.sets key
  tokens : ∀ token, token ∈ w'.sets loginTokensKey ↔ token ∈ w.sets loginTokensKey ∧
    ¬ (token ∈ w.sets target.key ∧ liveSession settings w token = none)

theorem Cleaned.liveSession (cleaned : Cleaned settings target w w') (token : String) :
    liveSession settings w' token = SessionStore.liveSession settings w token := by
  rw [SessionStore.liveSession, cleaned.strings, cleaned.clock, SessionStore.liveSession]

theorem performs_listAccountSessions {out : Except Exc (List SessionPayload)}
    (h : (listAccountSessions settings target).Performs still t w τ out w') :
    ∃ sessions : List SessionPayload, out = .ok sessions ∧
      sessions.Perm (accountSessions settings w target) ∧
      sessions.Pairwise (fun a b =>
        parseDatetimeOrEpoch a.loginAt ≤ parseDatetimeOrEpoch b.loginAt) ∧
      Cleaned settings target w w' := by
  rw [listAccountSessions] at h
  obtain ⟨row, τ₁, τ₂, w₁, first, rest, -⟩ := performs_step h fun _ _ _ raised => by
    obtain ⟨_, impossible, -⟩ := performs_getAccountTokens raised
    exact nomatch impossible
  obtain ⟨_, same, perm, rfl⟩ := performs_getAccountTokens first
  cases same
  obtain ⟨found, τ₃, τ₄, w₂, second, last, -⟩ := performs_step rest fun _ _ _ raised =>
    nomatch (performs_listSessionsByTokens raised).1
  obtain ⟨same, cleaned⟩ := performs_listSessionsByTokens second
  cases same
  obtain ⟨rfl, rfl⟩ := performs_still_ret last
  refine ⟨_, rfl, ?_, ?_, ?_⟩
  · exact (List.perm_insertionSort ..).trans ((distinct_perm perm).filterMap _)
  · let earlier (a b : SessionPayload) : Prop :=
      parseDatetimeOrEpoch a.loginAt ≤ parseDatetimeOrEpoch b.loginAt
    have total : Std.Total earlier := ⟨fun a b => le_total _ _⟩
    have trans : IsTrans SessionPayload earlier := ⟨fun a b c => le_trans⟩
    exact List.pairwise_insertionSort earlier _
  · rw [cleaned]
    refine ⟨rfl, rfl, fun key other => srem_other _ other, fun token => ?_⟩
    rw [World.mem_srem, List.mem_filter, mem_distinct, perm.mem_iff, decide_eq_true_eq]
    simp only [true_and]

/-- What is left of the account once some of its sessions are removed. -/
theorem accountSessions_removed (belongs : Belongs w target) {w₁ : World}
    (cleaned : Cleaned settings target w w₁) {tokens : List String}
    (gone : Removed target.key tokens w₁ w') :
    (accountSessions settings w' target).Perm
      ((accountSessions settings w target).filter fun session => session.token ∉ tokens) := by
  have index : ∀ token, token ∈ w'.sets target.key ↔ token ∈ w.sets target.key ∧ token ∉ tokens := by
    intro token
    rw [gone.index, cleaned.sets _ (target_key_ne_tokens target), List.mem_filter,
      decide_eq_true_eq]
  have still : Belongs w' target := by
    intro token listed session there
    rw [gone.strings, cleaned.strings] at there
    split at there
    · exact nomatch there
    · exact belongs token ((index token).mp listed).1 session there
  rw [List.perm_ext_iff_of_nodup still.nodup.of_map (belongs.nodup.of_map.filter _)]
  intro session
  rw [List.mem_filter, decide_eq_true_eq, mem_accountSessions]
  constructor
  · rintro ⟨token, listed, live⟩
    obtain ⟨before, stays⟩ := (index token).mp listed
    rw [gone.liveSession, if_neg stays, cleaned.liveSession] at live
    obtain ⟨rfl, -⟩ := belongs token before session (liveSession_eq_some live)
    exact ⟨mem_accountSessions.mpr ⟨_, before, live⟩, stays⟩
  · rintro ⟨mem, stays⟩
    obtain ⟨listed, live, -⟩ := belongs.live mem
    refine ⟨session.token, (index _).mpr ⟨listed, stays⟩, ?_⟩
    rw [gone.liveSession, if_neg stays, cleaned.liveSession, live]

/-- Of two lists of sessions with different tokens the second is what is not in the first. -/
theorem filter_token {removed kept : List SessionPayload}
    (nodup : ((removed ++ kept).map SessionPayload.token).Nodup) :
    (removed ++ kept).filter (fun session =>
      session.token ∉ removed.map SessionPayload.token) = kept := by
  rw [List.map_append, List.nodup_append] at nodup
  rw [List.filter_append]
  have none : removed.filter (fun session =>
      session.token ∉ removed.map SessionPayload.token) = [] := by
    rw [List.filter_eq_nil_iff]
    intro session mem
    simpa using ⟨session, mem, rfl⟩
  have all : kept.filter (fun session =>
      session.token ∉ removed.map SessionPayload.token) = kept := by
    rw [List.filter_eq_self]
    intro session mem
    rw [decide_eq_true_eq]
    exact fun there => nodup.2.2 _ there _ (List.mem_map_of_mem mem) rfl
  rw [none, all, List.nil_append]

/-- The loop of a pruning, over the oldest of the sorted sessions. -/
theorem pruned_of_deletes (belongs : Belongs w target) {w₁ : World}
    (cleaned : Cleaned settings target w w₁) {kept removed : List SessionPayload}
    (perm : (removed ++ kept).Perm (accountSessions settings w target))
    (sorted : (removed ++ kept).Pairwise fun a b =>
      parseDatetimeOrEpoch a.loginAt ≤ parseDatetimeOrEpoch b.loginAt)
    (count : (kept.length : Int) =
      min ((accountSessions settings w target).length : Int) maxSessions)
    (gone : Removed target.key (removed.map SessionPayload.token) w₁ w') :
    Pruned settings target maxSessions w w' kept removed where
  before := perm.symm
  after := by
    have left := (accountSessions_removed belongs cleaned gone).trans (perm.symm.filter _)
    have nodup := (perm.map SessionPayload.token).nodup_iff.mpr belongs.nodup
    rwa [filter_token nodup] at left
  count := count
  oldest r hr k hk := (List.pairwise_append.mp sorted).2.2 r hr k hk
  gone r mem := by
    have listed : r.token ∈ removed.map SessionPayload.token := List.mem_map_of_mem mem
    refine ⟨?_, ?_, ?_⟩
    · rw [gone.strings]
      exact if_pos (List.mem_map_of_mem listed)
    · rw [gone.index, List.mem_filter, decide_eq_true_eq]
      exact fun there => there.2 listed
    · rw [gone.tokens, List.mem_filter, decide_eq_true_eq]
      exact fun there => there.2 listed
  others token session there other := by
    have unlisted : token ∉ removed.map SessionPayload.token := by
      intro listed
      obtain ⟨r, mem, rfl⟩ := List.mem_map.mp listed
      obtain ⟨-, live, owner⟩ := belongs.live (perm.mem_iff.mp (List.mem_append_left _ mem))
      rw [liveSession_eq_some live] at there
      exact other (Option.some.inj there ▸ owner)
    have kept : loginTokenKey token ∉ (removed.map SessionPayload.token).map loginTokenKey :=
      fun mem => unlisted ((List.mem_map_of_injective fun _ _ => loginTokenKey_inj.mp).mp mem)
    constructor
    · rw [gone.strings, if_neg kept, cleaned.strings, there]
    · rw [gone.tokens, List.mem_filter, decide_eq_true_eq, cleaned.tokens]
      constructor
      · exact fun h => h.1.1
      · exact fun h => ⟨⟨h, fun stale => other (belongs token stale.1 session there).2⟩, unlisted⟩
  indexes other apart := by
    rw [gone.others other apart, cleaned.sets _ (target_key_ne_tokens other)]

/-- The newest logins of an account stay, at most as many as allowed. -/
theorem prune_keeps_newest {out : Except Exc Unit}
    (h : (pruneExcessSessions settings target maxSessions).Performs still t w τ out w')
    (belongs : Belongs w target) (positive : 0 < maxSessions) :
    out = .ok () ∧ ∃ kept removed, Pruned settings target maxSessions w w' kept removed := by
  rw [pruneExcessSessions, if_neg (not_le.mpr positive)] at h
  obtain ⟨sessions, τ₁, τ₂, w₁, first, rest, -⟩ := performs_step h fun _ _ _ raised => by
    obtain ⟨_, impossible, -⟩ := performs_listAccountSessions raised
    exact nomatch impossible
  obtain ⟨_, same, perm, sorted, cleaned⟩ := performs_listAccountSessions first
  cases same
  have length : sessions.length = (accountSessions settings w target).length := perm.length_eq
  simp only at rest
  split at rest
  · next few =>
    obtain ⟨rfl, rfl⟩ := performs_still_ret rest
    refine ⟨rfl, sessions, [], pruned_of_deletes belongs cleaned perm sorted ?_ .refl⟩
    omega
  · next many =>
    let limit := sessions.length - maxSessions.toNat
    have halves : sessions.take limit ++ sessions.drop limit = sessions :=
      List.take_append_drop ..
    have nodup : ((sessions.take limit).map SessionPayload.token).Nodup := by
      have all := (perm.map SessionPayload.token).nodup_iff.mpr belongs.nodup
      exact all.sublist ((List.take_sublist ..).map _)
    have live : ∀ session ∈ sessions.take limit,
        liveSession settings w₁ session.token = some session ∧
          session.accountKey = target.key := by
      intro session mem
      obtain ⟨-, live, owner⟩ := belongs.live (perm.mem_iff.mp (List.mem_of_mem_take mem))
      have same : Target.key (session.accountType, session.accountId) = target.key :=
        congrArg Target.key owner
      rw [cleaned.liveSession]
      exact ⟨live, same⟩
    obtain ⟨done, gone⟩ := performs_deletes rest nodup live
    refine ⟨done, sessions.drop limit, sessions.take limit, ?_⟩
    refine pruned_of_deletes belongs cleaned ?_ ?_ ?_ gone
    · rw [halves]
      exact perm
    · rw [halves]
      exact sorted
    · rw [List.length_drop]
      omega

end Pruning

/-- The login of a token of the account `7` at a moment. -/
def loginOf (token : String) (moment : ℚ) : SessionPayload :=
  { token := token, accountId := "7", accountType := "ADMIN", loginAt := some (.at moment) }

/-- Two logins of an account, and a token that is stale. -/
def twoLogins : World :=
  let index : Target := ("ADMIN", "7")
  (((World.empty.setString (loginTokenKey "late") (some (loginOf "late" 2))).setString
    (loginTokenKey "early") (some (loginOf "early" 1))).setSet index.key
      ["late", "stale", "early"]).setSet loginTokensKey ["late", "stale", "early"]

theorem twoLogins_belongs : Belongs twoLogins ("ADMIN", "7") := by
  have index : twoLogins.sets (Target.key ("ADMIN", "7")) = ["late", "stale", "early"] := by
    decide +kernel
  have late : twoLogins.strings (loginTokenKey "late") = some (loginOf "late" 2) := by
    decide +kernel
  have stale : twoLogins.strings (loginTokenKey "stale") = none := by decide +kernel
  have early : twoLogins.strings (loginTokenKey "early") = some (loginOf "early" 1) := by
    decide +kernel
  intro token mem session there
  rw [index] at mem
  simp only [List.mem_cons, List.not_mem_nil, or_false] at mem
  obtain rfl | rfl | rfl := mem
  · rw [late] at there
    cases there
    exact ⟨rfl, rfl⟩
  · rw [stale] at there
    exact nomatch there
  · rw [early] at there
    cases there
    exact ⟨rfl, rfl⟩

/-- With one session allowed, one of the two logins is left. -/
theorem twoLogins_pruned : ∃ w' kept removed,
    Pruned defaultSettings ("ADMIN", "7") 1 twoLogins w' kept removed := by
  let prune := pruneExcessSessions defaultSettings ("ADMIN", "7") 1
  obtain ⟨⟨out, w'⟩, ends⟩ : ∃ end_, prune.outcome reply twoLogins = some end_ :=
    Option.isSome_iff_exists.mp (by decide +kernel)
  have performs : prune.Performs still 0 twoLogins (prune.transcript reply twoLogins) out w' :=
    performs_transcript (I := fun _ => True) (m := still)
      (fun op s r s' _ answer => ⟨(reply_follows False 0 op s r s' answer).2, trivial⟩) trivial ends
  obtain ⟨-, pruned⟩ := prune_keeps_newest performs twoLogins_belongs (by decide)
  exact ⟨w', pruned⟩

end AcojWorker.SessionStore
