import AcojWorker.Effect.Schedule
import AcojWorker.Effect.Solo
import AcojWorker.Security.Session

/-!
# What the methods of the session store do

The keys of different kinds differ; each command changes one string or one set. A few facts
about all methods follow from the commands they may send at all: only logins and refreshes
write sessions, and the methods that delete sessions write none.
-/

namespace AcojWorker.SessionStore

open Python Effect Grouping

/-! ### Keys -/

theorem loginTokenKey_inj {token token' : String} :
    loginTokenKey token = loginTokenKey token' ↔ token = token' := by
  constructor
  · intro h
    have same := congrArg String.toList h
    rw [loginTokenKey, loginTokenKey, String.toList_append, String.toList_append] at same
    exact String.toList_inj.mp (List.append_cancel_left same)
  · exact congrArg _

/-- The first letters tell the keys of sessions from the keys of sets. -/
theorem key_ne {a b x y : String} (length : a.toList.length = b.toList.length) (h : a ≠ b) :
    a ++ x ≠ b ++ y := by
  intro same
  have same := congrArg String.toList same
  rw [String.toList_append, String.toList_append] at same
  exact h (String.toList_inj.mp (List.append_inj_left same length))

/-- The key of an account, cut where the other keys differ from it. -/
theorem loginAccountTokensKey_split (accountType accountId : String) :
    loginAccountTokensKey accountType accountId =
      "login:accoun" ++ ("t:" ++ accountType ++ ":" ++ accountId) := by
  have label : "login:account:" = "login:accoun" ++ "t:" := by decide
  change "login:account:" ++ accountType ++ ":" ++ accountId = _
  rw [label]
  simp only [String.append_assoc]

theorem loginTokenKey_ne_account (token : String) (target : Target) :
    loginTokenKey token ≠ target.key := by
  rw [Target.key, loginAccountTokensKey_split, loginTokenKey]
  exact key_ne (a := "login:token:") (b := "login:accoun") (by decide) (by decide)

theorem loginTokenKey_ne_tokens (token : String) : loginTokenKey token ≠ loginTokensKey := by
  intro same
  have whole : loginTokensKey = "login:tokens" ++ "" := by decide
  rw [loginTokenKey, whole] at same
  exact key_ne (a := "login:token:") (b := "login:tokens") (by decide) (by decide) same

theorem accountKey_ne_tokens (session : SessionPayload) : session.accountKey ≠ loginTokensKey := by
  intro same
  have whole : loginTokensKey = "login:tokens" ++ "" := by decide
  rw [SessionPayload.accountKey, loginAccountTokensKey_split, whole] at same
  exact key_ne (a := "login:accoun") (b := "login:tokens") (by decide) (by decide) same

/-! ### Commands -/

namespace World

variable {w w' : World} {key key' member token : String}

@[simp] theorem setString_strings (data : Option SessionPayload) :
    (w.setString key data).strings = Function.update w.strings key data := rfl

@[simp] theorem setString_sets (data : Option SessionPayload) :
    (w.setString key data).sets = w.sets := rfl

@[simp] theorem sadd_strings : (w.sadd key member).strings = w.strings := by
  rw [sadd]
  split <;> rfl

@[simp] theorem srem_strings (members : List String) : (w.srem key members).strings = w.strings :=
  rfl

@[simp] theorem mem_srem {members : List String} {x : String} :
    x ∈ (w.srem key members).sets key' ↔ x ∈ w.sets key' ∧ ¬ (key' = key ∧ x ∈ members) := by
  by_cases same : key' = key
  · subst same
    simp [srem, setSet]
  · simp [srem, setSet, same]

@[simp] theorem setSession_strings (update : SessionPayload × String) :
    (w.setSession update).strings =
      Function.update w.strings (loginTokenKey update.2) (some update.1) := by
  rw [setSession, sadd_strings, sadd_strings, setString_strings]

/-- A pipeline leaves the sessions alone that it does not list. -/
theorem setSessions_strings {updates : List (SessionPayload × String)}
    (other : ∀ u ∈ updates, u.2 ≠ token) :
    (w.setSessions updates).strings (loginTokenKey token) = w.strings (loginTokenKey token) := by
  rw [setSessions]
  induction updates generalizing w with
  | nil => rfl
  | cons u updates ih =>
      rw [List.foldl_cons, ih fun v hv => other v (List.mem_cons_of_mem _ hv), setSession_strings]
      apply Function.update_of_ne
      exact fun same => other u (List.mem_cons_self ..) (loginTokenKey_inj.mp same.symm)

theorem Later.trans {w'' : World} (first : w.Later w') (second : w'.Later w'') : w.Later w'' := by
  refine ⟨second.1.trans first.1, first.2.1.trans second.2.1, fun key => ?_⟩
  obtain same | gone := second.2.2 key
  · rw [same]
    exact first.2.2 key
  · exact .inr gone

/-- What is found later was there before. -/
theorem Later.before (later : w.Later w') {session : SessionPayload}
    (h : w'.strings key = some session) : w.strings key = some session := by
  obtain same | gone := later.2.2 key
  · exact same ▸ h
  · rw [gone] at h
    cases h

theorem Later.absent (later : w.Later w') (h : w.strings key = none) : w'.strings key = none := by
  obtain same | gone := later.2.2 key
  · exact same.trans h
  · exact gone

end World

/-! ### Commands that write a session -/

/-- The command writes the session of the token. -/
def Writes (token : String) : SessionOp → Prop
  | .setex key .. => key = loginTokenKey token
  | .setSessions _ updates => ∃ u ∈ updates, u.2 = token
  | _ => False

/-- The command writes some session. -/
def IsWrite : SessionOp → Prop
  | .setex .. => True
  | .setSessions .. => True
  | _ => False

def IsDelete : SessionOp → Prop
  | .delete _ => True
  | _ => False

theorem isWrite_of_writes {token : String} {op : SessionOp} (h : Writes token op) : IsWrite op := by
  cases op <;> first | exact trivial | exact h.elim

section Exec

variable {failures : Prop} {t : Nat} {op : SessionOp} {w w' : World} {r : Except Exc op.Answer}
  {token : String}

/-- An absent session is still absent after every command that does not write it. -/
theorem absent_exec (exec : (redis failures).exec t op w r w') (other : ¬ Writes token op)
    (absent : w.strings (loginTokenKey token) = none) :
    w'.strings (loginTokenKey token) = none := by
  cases r with
  | error e => rw [exec.1, absent]
  | ok a =>
      cases op with
      | get key => rw [exec.2, absent]
      | mget keys => rw [exec.2, absent]
      | setex key ttl data origin =>
          have exec : w' = _ := exec
          rw [exec, World.setString_strings, Function.update_of_ne (Ne.symm other), absent]
      | sadd key member =>
          have exec : w' = _ := exec
          rw [exec, World.sadd_strings, absent]
      | srem key members =>
          have exec : w' = _ := exec
          rw [exec, World.srem_strings, absent]
      | delete keys =>
          have exec : w' = _ := exec
          rw [exec]
          change (if _ then none else _) = none
          rw [absent, ite_self]
      | smembers key => rw [exec.2, absent]
      | smembersMany keys => rw [exec.2, absent]
      | setSessions ttl updates =>
          have exec : w' = _ := exec
          rw [exec, World.setSessions_strings fun u hu same => other ⟨u, hu, same⟩, absent]
      | now => rw [exec.2, absent]
      | payloadFactory target token =>
          have exec : w' = w := exec
          rw [exec, absent]

end Exec

/-! ### Which commands a method may send -/

section Calls

variable (settings : AuthSettings) {C : SessionOp → Prop}

theorem calls_checkIdleTimeout (now : C .now) (session : SessionPayload) :
    (checkIdleTimeout settings session).Calls C := by
  rw [checkIdleTimeout]
  refine Program.calls_ite (fun _ => trivial) fun _ => ?_
  exact Program.calls_bind (Program.calls_perform now) fun _ =>
    Program.calls_ite (fun _ => trivial) fun _ => trivial

theorem calls_get (now : C .now) (token : String) (read : C (.get (loginTokenKey token))) :
    (get settings token).Calls C := by
  refine Program.calls_bind (Program.calls_perform read) fun found => ?_
  cases found with
  | none => exact trivial
  | some session => exact calls_checkIdleTimeout settings now session

theorem calls_getAccountsTokens (read : ∀ keys, C (.smembersMany keys)) (targets : List Target) :
    (getAccountsTokens targets).Calls C := by
  rw [getAccountsTokens]
  refine Program.calls_ite (fun _ => trivial) fun _ => ?_
  exact Program.calls_bind (Program.calls_perform (read _)) fun _ => Program.calls_lift _

theorem calls_deleteKeys (delete : ∀ keys, C (.delete keys)) (keys : List String) :
    (deleteKeys keys).Calls C := by
  rw [deleteKeys]
  refine Program.calls_ite (fun _ => trivial) fun _ => ?_
  refine Program.calls_tryCatch (Program.calls_perform (delete _)) fun e => ?_
  refine Program.calls_ite (fun _ => ?_) fun _ => trivial
  apply Program.calls_foldlM
  exact fun _ key => Program.calls_perform (delete [key])

theorem calls_delete (now : C .now) (read : ∀ key, C (.get key)) (delete : ∀ keys, C (.delete keys))
    (srem : ∀ key members, C (.srem key members)) (token : String) :
    (SessionStore.delete settings token).Calls C := by
  refine Program.calls_bind (calls_get settings now token (read _)) fun payload => ?_
  refine Program.calls_bind (calls_deleteKeys delete _) fun _ => ?_
  refine Program.calls_bind (Program.calls_perform (srem _ _)) fun _ => ?_
  cases payload with
  | none => exact trivial
  | some session => exact Program.calls_perform (srem _ _)

theorem calls_listSessionsByTokens (now : C .now) (read : ∀ key, C (.get key))
    (srem : ∀ key members, C (.srem key members)) (tokens : List String) :
    (listSessionsByTokens settings tokens).Calls C := by
  refine Program.calls_bind (Program.calls_foldlM (fun found token => ?_) _ _) fun found => ?_
  · refine Program.calls_bind (calls_get settings now token (read _)) fun session => ?_
    cases session <;> exact trivial
  · refine Program.calls_ite (fun _ => ?_) fun _ => trivial
    exact Program.calls_bind (Program.calls_perform (srem _ _)) fun _ => trivial

theorem calls_listAccountSessions (now : C .now) (read : ∀ key, C (.get key))
    (srem : ∀ key members, C (.srem key members)) (index : ∀ keys, C (.smembersMany keys))
    (target : Target) : (listAccountSessions settings target).Calls C := by
  refine Program.calls_bind ?_ fun tokens => ?_
  · exact Program.calls_bind (calls_getAccountsTokens index _) fun _ => trivial
  · exact Program.calls_bind (calls_listSessionsByTokens settings now read srem tokens)
      fun _ => trivial

/-- Only a login, `touch` and a refresh write sessions. -/
def Method.writes : Method → Bool
  | .set .. => true
  | .touch _ => true
  | .refreshAccountsSessions .. => true
  | _ => false

theorem calls_no_write {method : Method} (reads : method.writes = false) :
    (method.program settings).Calls fun op => ¬ IsWrite op := by
  cases method with
  | set payload ttl => cases reads
  | get token =>
      exact Program.calls_bind (calls_get settings nofun token nofun) fun _ => trivial
  | touch token => cases reads
  | listTokens => exact Program.calls_bind (Program.calls_perform nofun) fun _ => trivial
  | listSessionsByTokens tokens =>
      exact Program.calls_bind
        (calls_listSessionsByTokens settings nofun (fun _ => nofun) (fun _ _ => nofun) tokens)
        fun _ => trivial
  | listAccountSessions target =>
      exact Program.calls_bind (calls_listAccountSessions settings nofun (fun _ => nofun)
        (fun _ _ => nofun) (fun _ => nofun) target) fun _ => trivial
  | pruneExcessSessions target maxSessions =>
      refine Program.calls_ite (fun _ => trivial) fun _ => ?_
      refine Program.calls_bind (calls_listAccountSessions settings nofun (fun _ => nofun)
        (fun _ _ => nofun) (fun _ => nofun) target) fun sessions => ?_
      refine Program.calls_ite (fun _ => trivial) fun _ => Program.calls_foldlM (fun _ session => ?_) _ _
      exact calls_delete settings nofun (fun _ => nofun) (fun _ => nofun) (fun _ _ => nofun) _
  | refreshAccountsSessions targets factories => cases reads
  | delete token =>
      exact calls_delete settings nofun (fun _ => nofun) (fun _ => nofun) (fun _ _ => nofun) token
  | deleteAccountsSessions targets =>
      refine Program.calls_ite (fun _ => trivial) fun _ => ?_
      refine Program.calls_bind (calls_getAccountsTokens (fun _ => nofun) _) fun tokenMap => ?_
      refine Program.calls_bind (calls_deleteKeys (fun _ => nofun) _) fun _ => ?_
      exact Program.calls_ite (fun _ => Program.calls_perform nofun) fun _ => trivial

theorem calls_set {payload : SessionPayload} {ttl : Int}
    (write : C (.setex (loginTokenKey payload.token) ttl payload .set))
    (sadd : ∀ key member, C (.sadd key member)) : (set payload ttl).Calls C :=
  Program.calls_bind (Program.calls_perform write) fun _ =>
    Program.calls_bind (Program.calls_perform (sadd _ _)) fun _ => Program.calls_perform (sadd _ _)

theorem calls_touch (read : ∀ key, C (.get key)) (now : C .now) {token : String}
    (write : ∀ ttl data, C (.setex (loginTokenKey token) ttl data .touch)) :
    (touch settings token).Calls C := by
  refine Program.calls_tryCatch ?_ fun _ => trivial
  refine Program.calls_bind (Program.calls_perform (read _)) fun found => ?_
  cases found with
  | none => exact trivial
  | some data =>
      exact Program.calls_bind (Program.calls_perform now) fun _ => Program.calls_perform (write _ _)

theorem calls_refreshTokens (read : ∀ keys, C (.mget keys))
    (factory : ∀ target token, C (.payloadFactory target token))
    (write : ∀ ttl updates, C (.setSessions ttl updates)) (tokenTargets : List (String × Target)) :
    (refreshTokens settings tokenTargets).Calls C := by
  refine Program.calls_ite (fun _ => trivial) fun _ => ?_
  refine Program.calls_bind (Program.calls_perform (read _)) fun existing => ?_
  refine Program.calls_bind (Program.calls_lift _) fun entries => ?_
  refine Program.calls_bind (Program.calls_foldlM (fun updates entry => ?_) _ _) fun updates => ?_
  · obtain ⟨⟨token, target⟩, found⟩ := entry
    cases found with
    | none => exact trivial
    | some _ => exact Program.calls_bind (Program.calls_perform (factory _ _)) fun _ => trivial
  · exact Program.calls_ite (fun _ => trivial) fun _ => Program.calls_perform (write _ _)

theorem calls_refreshAccountsSessions (index : ∀ keys, C (.smembersMany keys))
    (read : ∀ keys, C (.mget keys)) (factory : ∀ target token, C (.payloadFactory target token))
    (write : ∀ ttl updates, C (.setSessions ttl updates)) (targets factories : List Target) :
    (refreshAccountsSessions settings targets factories).Calls C := by
  refine Program.calls_ite (fun _ => trivial) fun _ => ?_
  exact Program.calls_bind (calls_getAccountsTokens index _) fun tokenMap =>
    calls_refreshTokens settings read factory write _

/-- A method that deletes sessions writes none. -/
theorem calls_method (method : Method) :
    (method.program settings).Calls (fun op => ¬ IsDelete op) ∨
      (method.program settings).Calls (fun op => ¬ IsWrite op) := by
  cases method with
  | set payload ttl => exact .inl (calls_set (C := fun op => ¬ IsDelete op) nofun fun _ _ => nofun)
  | touch token =>
      exact .inl (calls_touch settings (C := fun op => ¬ IsDelete op) (fun _ => nofun) nofun
        fun _ _ => nofun)
  | refreshAccountsSessions targets factories =>
      exact .inl (calls_refreshAccountsSessions settings (C := fun op => ¬ IsDelete op)
        (fun _ => nofun) (fun _ => nofun) (fun _ _ => nofun) (fun _ _ => nofun) targets factories)
  | _ => exact .inr (calls_no_write settings rfl)

end Calls

/-! ### Scripted answers -/

/-- Every command succeeds, and a factory refreshes nothing but the account. -/
def reply : Effect.Script SessionCalls Exc World
  | .get key, w => some (.ok (w.strings key), w)
  | .mget keys, w => some (.ok (keys.map w.strings), w)
  | .setex key _ data _, w => some (.ok (), w.setString key (some data))
  | .sadd key member, w => some (.ok (), w.sadd key member)
  | .srem key members, w => some (.ok (), w.srem key members)
  | .delete keys, w => some (.ok (), w.delete keys)
  | .smembers key, w => some (.ok (w.sets key), w)
  | .smembersMany keys, w => some (.ok (keys.map w.sets), w)
  | .setSessions _ updates, w => some (.ok (), w.setSessions updates)
  | .now, w => some (.ok w.clock, w)
  | .payloadFactory target token, w =>
      some (.ok { token := token, accountId := target.2, accountType := target.1 }, w)

/-- A server nobody has logged in at. -/
def World.empty : World := ⟨fun _ => none, fun _ => [], 0⟩

/-- No method is under way. -/
def idlePool (w : World) : Pool SessionCalls Exc World := ⟨fun _ => none, w⟩

/-- The settings as they are shipped: no session is idle too long. -/
def defaultSettings : AuthSettings := ⟨60 * 60 * 4, 60 * 60 * 2, 0⟩

theorem reply_follows (failures : Prop) (t : Nat) :
    reply.Follows (redis failures) (fun _ _ _ => True) t := by
  intro op w r w' h
  refine ⟨trivial, ?_⟩
  cases op with
  | get key => cases h; exact ⟨rfl, rfl⟩
  | mget keys => cases h; exact ⟨rfl, rfl⟩
  | smembers key => cases h; exact ⟨.refl _, rfl⟩
  | smembersMany keys =>
      cases h
      refine ⟨?_, rfl⟩
      rw [List.forall₂_map_right_iff]
      exact List.forall₂_same.mpr fun key _ => .refl _
  | now => cases h; exact ⟨rfl, rfl⟩
  | _ => cases h; exact rfl

theorem later_of_run {failures : Prop} {w w' : World}
    (run : Relation.ReflTransGen (redis failures).drift w w') : w.Later w' := by
  induction run with
  | refl => exact ⟨rfl, le_refl _, fun _ => .inl rfl⟩
  | tail _ step ih => exact ih.trans step

/-- A session that `get` returns is there when the method starts. -/
theorem performs_get {settings : AuthSettings} {failures : Prop} {t : Nat} {token : String}
    {w w' : World} {τ : Trace SessionCalls Exc} {session : SessionPayload}
    (h : (get settings token).Performs (redis failures) t w τ (.ok (some session)) w') :
    w.strings (loginTokenKey token) = some session := by
  obtain ⟨w₁, r, w₂, rest, before, exec, _, further⟩ := performs_call h
  cases r with
  | error e =>
      obtain ⟨_, out, _⟩ := performs_raise further
      cases out
  | ok found =>
      obtain ⟨hfound, rfl⟩ := exec
      cases found with
      | none =>
          obtain ⟨_, out, _⟩ := performs_ret further
          cases out
      | some s =>
          suffices s = session from this ▸ (later_of_run before).before hfound.symm
          change (checkIdleTimeout settings s).Performs _ _ _ _ _ _ at further
          rw [checkIdleTimeout] at further
          split at further
          · obtain ⟨_, out, _⟩ := performs_ret further
            cases out
            rfl
          · obtain ⟨_, r, _, _, _, _, _, further⟩ := performs_call further
            cases r with
            | error e =>
                obtain ⟨_, out, _⟩ := performs_raise further
                cases out
            | ok now =>
                change Program.Performs _ _ (if _ then _ else _) _ _ _ _ at further
                split at further
                · obtain ⟨_, out, _⟩ := performs_ret further
                  cases out
                · obtain ⟨_, out, _⟩ := performs_ret further
                  cases out
                  rfl

/-- The session that `get` returns when every command succeeds. -/
def sessionFound (settings : AuthSettings) (token : String) (w : World) : Option SessionPayload :=
  match (get settings token).outcome reply w with
  | some (.ok found, _) => found
  | _ => none

theorem sessionFound_performs {settings : AuthSettings} {token : String} {w : World}
    {session : SessionPayload} (failures : Prop) (t : Nat)
    (h : sessionFound settings token w = some session) :
    ∃ τ w', (get settings token).Performs (redis failures) t w τ (.ok (some session)) w' := by
  unfold sessionFound at h
  split at h
  · next found w' outcome =>
    subst h
    obtain ⟨τ, performs⟩ := performs_outcome (reply_follows failures t) outcome
    exact ⟨τ, w', performs⟩
  · cases h

end AcojWorker.SessionStore
