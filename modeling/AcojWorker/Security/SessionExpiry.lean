import AcojWorker.Security.SessionSteps

/-!
# The expiry of renewed sessions

A login is remembered for a long time or for a short one. Sessions are renewed by `touch`, which
looks at the login, and by a refresh of the permissions, which writes every session with the long
time to live. A client may lack pipelines or `MGET`; the commands are sent one by one then.
-/

namespace AcojWorker.SessionStore

open Python Effect Grouping

/-! ### Refreshing with any client -/

/-- What the client offers. -/
structure Client where
  pipelines : Bool
  mget : Bool

section Methods

variable (settings : AuthSettings) (client : Client)

/-- `_smembers_many`. -/
def smembersMany (keys : List String) : Storing (List (List String)) :=
  if client.pipelines then call (.smembersMany keys)
  else keys.mapM fun key => (call (.smembers key) : Storing (List String))

/-- `_get_many`. -/
def getMany (keys : List String) : Storing (List (Option SessionPayload)) :=
  if client.mget then call (.mget keys)
  else keys.mapM fun key => (call (.get key) : Storing (Option SessionPayload))

/-- `_set_sessions` without a pipeline, for one of the updates. -/
def setSessionAlone (update : SessionPayload × String) : Storing Unit := do
  call (.setex (loginTokenKey update.2) settings.tokenTtlSeconds update.1 .set)
  call (.sadd update.1.accountKey update.2)
  call (.sadd loginTokensKey update.2)

def setSessionsWith (updates : List (SessionPayload × String)) : Storing Unit :=
  if client.pipelines then setSessions settings updates
  else updates.foldlM (fun (_ : Unit) update => setSessionAlone settings update) ()

def getAccountsTokensWith (targets : List Target) : Storing (List (Target × List String)) :=
  let uniqueTargets := distinct targets
  if uniqueTargets = [] then pure []
  else do
    let rows : List (List String) ← smembersMany client (uniqueTargets.map Target.key)
    zipStrict uniqueTargets rows

def refreshTokensWith (tokenTargets : List (String × Target)) : Storing Unit :=
  if tokenTargets = [] then pure ()
  else do
    let existing : List (Option SessionPayload) ←
      getMany client (tokenTargets.map fun entry => loginTokenKey entry.1)
    let entries ← zipStrict tokenTargets existing
    let updates ← entries.foldlM refreshSession []
    setSessionsWith settings client updates

def refreshAccountsSessionsWith (targets payloadFactories : List Target) : Storing Unit :=
  let uniqueTargets := (distinct targets).filter (· ∈ payloadFactories)
  if uniqueTargets = [] then pure ()
  else do
    let tokenMap ← getAccountsTokensWith client uniqueTargets
    refreshTokensWith settings client (uniqueTargets.flatMap fun target =>
      ((tokenMap.lookup target).getD []).map fun token => (token, target))

end Methods

/-- The client of `redis.asyncio` offers both. -/
theorem refreshAccountsSessionsWith_asyncio (settings : AuthSettings)
    (targets factories : List Target) :
    refreshAccountsSessionsWith settings ⟨true, true⟩ targets factories =
      refreshAccountsSessions settings targets factories := rfl

/-! ### Renewing sessions -/

/-- The operations that renew sessions. -/
inductive Renewal where
  | touch (token : String)
  | refreshAccountSessions (target : Target)
  | refreshAccountsSessions (targets payloadFactories : List Target)

def Renewal.program (settings : AuthSettings) (client : Client) : Renewal → Storing Unit
  | .touch token => SessionStore.touch settings token
  | .refreshAccountSessions target =>
      refreshAccountsSessionsWith settings client [target] [target]
  | .refreshAccountsSessions targets payloadFactories =>
      refreshAccountsSessionsWith settings client targets payloadFactories

/-- One operation after the other, whether they succeed or not. -/
def renewals (settings : AuthSettings) (client : Client) (operations : List Renewal) :
    Storing Unit :=
  operations.foldlM (fun (_ : Unit) operation => do
    let _ ← (operation.program settings client).attempt) ()

/-- The time to live that a login asks for. -/
def SessionPayload.ttl (settings : AuthSettings) (session : SessionPayload) : Int :=
  if session.rememberMe then settings.tokenTtlSeconds else settings.tokenTtlShortSeconds

/-- A command that gives the key of a token an expiry, together with its session. -/
inductive Gives : Effect.Event SessionCalls Exc → String → Int → SessionPayload → Prop where
  | setex (token : String) (ttl : Int) (data : SessionPayload) (origin : Origin) :
      Gives ⟨.setex (loginTokenKey token) ttl data origin, .ok ()⟩ token ttl data
  | setSessions {ttl : Int} {updates : List (SessionPayload × String)} {data : SessionPayload}
      {token : String} (mem : (data, token) ∈ updates) :
      Gives ⟨.setSessions ttl updates, .ok ()⟩ token ttl data

/-- A command by which a refresh writes a session. -/
inductive Refreshes : Effect.Event SessionCalls Exc → String → SessionPayload → Prop where
  | setex (token : String) (ttl : Int) (data : SessionPayload) :
      Refreshes ⟨.setex (loginTokenKey token) ttl data .set, .ok ()⟩ token data
  | setSessions {ttl : Int} {updates : List (SessionPayload × String)} {data : SessionPayload}
      {token : String} (mem : (data, token) ∈ updates) :
      Refreshes ⟨.setSessions ttl updates, .ok ()⟩ token data

/-- Every expiry that is given is the one its login asks for. -/
def KeepsExpiry (settings : AuthSettings) (τ : Trace SessionCalls Exc) : Prop :=
  ∀ e ∈ τ, ∀ token ttl data, Gives e token ttl data → ttl = data.ttl settings

/-- Only `touch` chooses. -/
def Chooses (settings : AuthSettings) : SessionOp → Prop
  | .setex _ ttl data .touch => ttl = data.ttl settings
  | .setex _ ttl _ .set => ttl = settings.tokenTtlSeconds
  | .setSessions ttl _ => ttl = settings.tokenTtlSeconds
  | _ => True

section Calls

open Program

variable (settings : AuthSettings) (client : Client)

theorem chooses_touch (token : String) : (touch settings token).Calls (Chooses settings) := by
  refine calls_tryCatch ?_ fun _ => trivial
  refine calls_bind (calls_perform trivial) fun found => ?_
  cases found with
  | none => exact trivial
  | some data => exact calls_bind (calls_perform trivial) fun now => calls_perform rfl

theorem chooses_setSessionsWith (updates : List (SessionPayload × String)) :
    (setSessionsWith settings client updates).Calls (Chooses settings) := by
  refine calls_ite (fun _ => ?_) fun _ => ?_
  · exact calls_ite (fun _ => trivial) fun _ => calls_perform rfl
  · refine calls_foldlM (fun _ update => ?_) _ _
    refine calls_bind (calls_perform ?_) fun _ => ?_
    · exact rfl
    · exact calls_bind (calls_perform trivial) fun _ => calls_perform trivial

theorem chooses_smembersMany (keys : List String) :
    (smembersMany client keys).Calls (Chooses settings) := by
  refine calls_ite (fun _ => calls_perform trivial) fun _ => ?_
  apply calls_mapM
  intro key
  refine ⟨trivial, fun r => ?_⟩
  cases r <;> exact trivial

theorem chooses_getMany (keys : List String) :
    (getMany client keys).Calls (Chooses settings) := by
  refine calls_ite (fun _ => calls_perform trivial) fun _ => ?_
  apply calls_mapM
  intro key
  refine ⟨trivial, fun r => ?_⟩
  cases r <;> exact trivial

theorem chooses_refresh (targets factories : List Target) :
    (refreshAccountsSessionsWith settings client targets factories).Calls (Chooses settings) := by
  refine calls_ite (fun _ => trivial) fun _ => calls_bind ?_ fun tokenMap => ?_
  · refine calls_ite (fun _ => trivial) fun _ => ?_
    exact calls_bind (chooses_smembersMany settings client _) fun _ => calls_lift _
  · refine calls_ite (fun _ => trivial) fun _ => ?_
    refine calls_bind (chooses_getMany settings client _) fun existing => ?_
    refine calls_bind (calls_lift _) fun entries => ?_
    refine calls_bind (calls_foldlM ?_ _ _) fun _ => chooses_setSessionsWith settings client _
    rintro updates ⟨⟨token, target⟩, _ | session⟩
    · exact trivial
    · exact calls_bind (calls_perform trivial) fun _ => trivial

theorem chooses_renewals (operations : List Renewal) :
    (renewals settings client operations).Calls (Chooses settings) := by
  refine calls_foldlM (fun _ operation => ?_) _ _
  refine calls_bind (calls_attempt ?_) fun _ => trivial
  cases operation with
  | touch token => exact chooses_touch settings token
  | refreshAccountSessions target => exact chooses_refresh settings client [target] [target]
  | refreshAccountsSessions targets factories =>
      exact chooses_refresh settings client targets factories

end Calls

/-- Renewed sessions keep their expiry exactly if no refresh renews a short login. -/
theorem keepsExpiry_iff {settings : AuthSettings} {client : Client} {operations : List Renewal}
    {failures : Prop} {t : Nat} {w w' : World} {τ : Trace SessionCalls Exc} {out : Except Exc Unit}
    (h : (renewals settings client operations).Performs (redis failures) t w τ out w') :
    KeepsExpiry settings τ ↔ settings.tokenTtlShortSeconds = settings.tokenTtlSeconds ∨
      ∀ e ∈ τ, ∀ token data, Refreshes e token data → data.rememberMe = true := by
  have chosen : ∀ e ∈ τ, Chooses settings e.op :=
    Program.yields_calls h.1 (chooses_renewals settings client operations)
  constructor
  · intro keeps
    by_cases same : settings.tokenTtlShortSeconds = settings.tokenTtlSeconds
    · exact .inl same
    · refine .inr fun e mem token data refreshes => ?_
      have long : settings.tokenTtlSeconds = data.ttl settings := by
        have chosen := chosen e mem
        cases refreshes with
        | setex => exact chosen.symm.trans (keeps _ mem token _ data (.setex ..))
        | setSessions listed =>
            exact chosen.symm.trans (keeps _ mem token _ data (.setSessions listed))
      by_contra short
      rw [SessionPayload.ttl, if_neg short] at long
      exact same long.symm
  · intro fine e mem token ttl data gives
    have long : ttl = settings.tokenTtlSeconds → Refreshes e token data →
        ttl = data.ttl settings := by
      rintro rfl refreshes
      rw [SessionPayload.ttl]
      obtain same | remembered := fine
      · rw [same, ite_self]
      · rw [if_pos (remembered e mem token data refreshes)]
    have chosen := chosen e mem
    cases gives with
    | setex _ _ _ origin =>
        cases origin with
        | touch => exact chosen
        | set => exact long chosen (.setex ..)
    | setSessions listed => exact long chosen (.setSessions listed)

/-- A short login of the account `7`. -/
def shortSession : SessionPayload :=
  { token := "t", accountId := "7", accountType := "ADMIN", rememberMe := false }

def shortLogin : World :=
  (World.empty.setString (loginTokenKey "t") (some shortSession)).setSet shortSession.accountKey
    ["t"]

/-- The factory changes nothing. -/
def keepingReply : Effect.Script SessionCalls Exc World
  | .payloadFactory _ token, w =>
      (w.strings (loginTokenKey token)).map fun session => (.ok session, w)
  | op, w => reply op w

theorem keepingReply_follows (t : Nat) :
    keepingReply.Follows (redis False) (fun _ _ _ => True) t := by
  intro op w r w' h
  cases op with
  | payloadFactory target token =>
      obtain ⟨session, -, same⟩ := Option.map_eq_some_iff.mp h
      cases same
      exact ⟨trivial, rfl⟩
  | _ => exact reply_follows False t _ w r w' h

/-- The expiries a trace gives, as far as they are wrong. -/
def wrongExpiry (settings : AuthSettings) : Effect.Event SessionCalls Exc → Bool
  | ⟨.setSessions ttl updates, .ok ()⟩ => updates.any fun u => ttl ≠ u.1.ttl settings
  | _ => false

/-- A refresh of the permissions makes a short login a long one. -/
theorem refresh_lengthens : ∃ τ w', (renewals defaultSettings ⟨true, true⟩
      [.refreshAccountSessions ("ADMIN", "7")]).Performs (redis False) 0 shortLogin τ (.ok ()) w' ∧
    ¬ KeepsExpiry defaultSettings τ := by
  let refresh := renewals defaultSettings ⟨true, true⟩ [.refreshAccountSessions ("ADMIN", "7")]
  obtain ⟨⟨out, w'⟩, ends⟩ : ∃ end_, refresh.outcome keepingReply shortLogin = some end_ :=
    Option.isSome_iff_exists.mp (by decide +kernel)
  have performs := performs_transcript (I := fun _ => True) (m := redis False) (t := 0)
    (fun op s r s' _ answer => ⟨(keepingReply_follows 0 op s r s' answer).2, trivial⟩)
    trivial ends
  cases out with
  | error e =>
      have returned : (refresh.outcome keepingReply shortLogin).map (fun end_ => end_.1.isOk) =
        some true := by decide +kernel
      rw [ends] at returned
      exact nomatch returned
  | ok _ =>
      refine ⟨_, w', performs, fun keeps => ?_⟩
      obtain ⟨event, mem, wrong⟩ : ∃ event ∈ refresh.transcript keepingReply shortLogin,
          wrongExpiry defaultSettings event = true := List.any_eq_true.mp (by decide +kernel)
      unfold wrongExpiry at wrong
      split at wrong
      · obtain ⟨update, listed, different⟩ := List.any_eq_true.mp wrong
        exact absurd (keeps _ mem _ _ update.1 (.setSessions listed)) (of_decide_eq_true different)
      · exact nomatch wrong

/-- A `touch` of the short login. -/
theorem touch_keepsExpiry : ∃ τ, (KeepsExpiry defaultSettings τ ↔
    defaultSettings.tokenTtlShortSeconds = defaultSettings.tokenTtlSeconds ∨
      ∀ e ∈ τ, ∀ token data, Refreshes e token data → data.rememberMe = true) := by
  let touches := renewals defaultSettings ⟨true, true⟩ [.touch "t"]
  obtain ⟨⟨out, w'⟩, ends⟩ : ∃ end_, touches.outcome keepingReply shortLogin = some end_ :=
    Option.isSome_iff_exists.mp (by decide +kernel)
  obtain ⟨τ, performs⟩ := performs_outcome (keepingReply_follows 0) ends
  exact ⟨τ, keepsExpiry_iff performs⟩

end AcojWorker.SessionStore
