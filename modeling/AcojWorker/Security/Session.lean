import AcojWorker.Data.Grouping
import AcojWorker.Effect.Interleaving
import AcojWorker.Python.Value
import Mathlib.Data.List.Sort

/-!
# The session store

Every login session is a string in Redis under its token; the tokens of an account, and the
tokens of all accounts, are two sets beside it. The methods of the store issue their commands
one at a time, and other requests may come in between any two of them; a pipeline is one step.

JSON is lossless here, so a stored text is represented by the payload it encodes, and an ISO
text by the moment it denotes. The client is the one of `redis.asyncio`: it has pipelines and
`MGET`, and a command that is not awaited is not sent.
-/

namespace AcojWorker.SessionStore

open Python Effect Grouping

/-- An ISO text: the moment it denotes, or a text that denotes none. -/
inductive Timestamp where
  | at (moment : ℚ)
  | unreadable (text : String)
deriving DecidableEq, Repr

structure PermissionGrantPayload where
  permissionKey : String
  dataScope : String
  customScopeDeptIds : List String
  effect : String
  sourceType : String
  sourceId : String
deriving DecidableEq, Repr

/-- What is kept of a login; an empty text counts as a missing one. -/
structure SessionPayload where
  token : String
  accountId : String
  accountType : String
  roleIds : List String := []
  deptIds : List String := []
  groupIds : List String := []
  resourceIds : List String := []
  buttonCodes : List String := []
  permissionKeys : List String := []
  permissionGrants : List PermissionGrantPayload := []
  clientIp : Option String := none
  userAgent : Option String := none
  rememberMe : Bool := true
  passwordExpired : Bool := false
  deviceLabel : Option String := none
  loginAt : Option Timestamp := none
  lastActiveAt : Option Timestamp := none
  expiresAt : Option Timestamp := none
deriving DecidableEq, Repr

structure AuthSettings where
  tokenTtlSeconds : Int
  tokenTtlShortSeconds : Int
  sessionIdleTimeoutSeconds : Int

/-! ### Keys -/

def loginTokenKey (token : String) : String := "login:token:" ++ token

def loginAccountTokensKey (accountType accountId : String) : String :=
  "login:account:" ++ accountType ++ ":" ++ accountId

def loginTokensKey : String := "login:tokens"

/-- An account: its type and its identifier. -/
abbrev Target : Type := String × String

instance : LawfulBEq Target := inferInstanceAs (LawfulBEq (String × String))

def Target.key (target : Target) : String := loginAccountTokensKey target.1 target.2

/-- The index a session has to be listed in. -/
def SessionPayload.accountKey (session : SessionPayload) : String :=
  loginAccountTokensKey session.accountType session.accountId

/-! ### Commands -/

/-- Which method sends a `SETEX`. -/
inductive Origin where
  | set
  | touch
deriving DecidableEq, Repr

/-- A command, a pipeline of commands, the clock, or the factory of refreshed payloads. -/
inductive SessionOp where
  | get (key : String)
  | mget (keys : List String)
  | setex (key : String) (ttlSeconds : Int) (data : SessionPayload) (origin : Origin)
  | sadd (key member : String)
  | srem (key : String) (members : List String)
  | delete (keys : List String)
  | smembers (key : String)
  | smembersMany (keys : List String)
  | setSessions (ttlSeconds : Int) (updates : List (SessionPayload × String))
  | now
  | payloadFactory (target : Target) (token : String)

abbrev SessionOp.Answer : SessionOp → Type
  | .get _ => Option SessionPayload
  | .mget _ => List (Option SessionPayload)
  | .setex .. => Unit
  | .sadd .. => Unit
  | .srem .. => Unit
  | .delete _ => Unit
  | .smembers _ => List String
  | .smembersMany _ => List (List String)
  | .setSessions .. => Unit
  | .now => ℚ
  | .payloadFactory .. => SessionPayload

abbrev SessionCalls : Signature := ⟨SessionOp, SessionOp.Answer⟩

abbrev Storing (α : Type) : Type := Program SessionCalls Exc α

def call (op : SessionOp) : Storing op.Answer := Program.perform (S := SessionCalls) op

/-- `datetime.min`, in seconds from the epoch. -/
def datetimeMin : ℚ := -62135596800

def parseDatetimeOrEpoch : Option Timestamp → ℚ
  | some (.at moment) => moment
  | _ => datetimeMin

/-- `zip(a, b, strict=True)`. -/
def zipStrict {α β : Type} (xs : List α) (ys : List β) : Except Exc (List (α × β)) :=
  if ys.length < xs.length then
    .error ⟨.valueError, "zip() argument 2 is shorter than argument 1"⟩
  else if xs.length < ys.length then
    .error ⟨.valueError, "zip() argument 2 is longer than argument 1"⟩
  else .ok (xs.zip ys)

/-! ### The methods -/

section Methods

variable (settings : AuthSettings)

def set (payload : SessionPayload) (ttlSeconds : Int) : Storing Unit := do
  call (.setex (loginTokenKey payload.token) ttlSeconds payload .set)
  call (.sadd payload.accountKey payload.token)
  call (.sadd loginTokensKey payload.token)

/-- The session was last active too long ago. -/
def SessionPayload.idleAt (session : SessionPayload) (now : ℚ) : Bool :=
  settings.sessionIdleTimeoutSeconds < now - parseDatetimeOrEpoch session.lastActiveAt

/-- The commands that should remove an idle session are not awaited: nothing is sent. -/
def checkIdleTimeout (session : SessionPayload) : Storing (Option SessionPayload) :=
  if settings.sessionIdleTimeoutSeconds ≤ 0 ∨ session.lastActiveAt = none then pure (some session)
  else do
    let now : ℚ ← call .now
    if session.idleAt settings now then pure none else pure (some session)

def get (token : String) : Storing (Option SessionPayload) := do
  match ← call (.get (loginTokenKey token)) with
  | none => pure none
  | some session => checkIdleTimeout settings session

/-- Every exception is swallowed. -/
def touch (token : String) : Storing Unit :=
  Program.tryCatch
    (do
      match ← call (.get (loginTokenKey token)) with
      | none => pure ()
      | some data => do
          let now : ℚ ← call .now
          let ttl := if data.rememberMe then settings.tokenTtlSeconds
            else settings.tokenTtlShortSeconds
          call (.setex (loginTokenKey token) ttl { data with lastActiveAt := some (.at now) } .touch))
    (fun _ => pure ())

/-- The targets, each once, with the tokens of their indexes. -/
def getAccountsTokens (targets : List Target) : Storing (List (Target × List String)) :=
  let uniqueTargets := distinct targets
  if uniqueTargets = [] then pure []
  else do
    let rows : List (List String) ← call (.smembersMany (uniqueTargets.map Target.key))
    zipStrict uniqueTargets rows

def getAccountTokens (target : Target) : Storing (List String) := do
  let tokenMap ← getAccountsTokens [target]
  return (tokenMap.lookup target).getD []

def listTokens : Storing (List String) := call (.smembers loginTokensKey)

/-- One token of the loop: the sessions found so far, and the tokens without a session. -/
def listSession (found : List SessionPayload × List String) (token : String) :
    Storing (List SessionPayload × List String) := do
  match ← get settings token with
  | some session => return (found.1 ++ [session], found.2)
  | none => return (found.1, found.2 ++ [token])

def listSessionsByTokens (tokens : List String) : Storing (List SessionPayload) := do
  let found ← (distinct tokens).foldlM (listSession settings) ([], [])
  if found.2 ≠ [] then call (.srem loginTokensKey found.2) else pure ()
  return found.1

def listAccountSessions (target : Target) : Storing (List SessionPayload) := do
  let tokens ← getAccountTokens target
  let sessions ← listSessionsByTokens settings tokens
  return sessions.insertionSort fun a b =>
    parseDatetimeOrEpoch a.loginAt ≤ parseDatetimeOrEpoch b.loginAt

/-- A client that takes one key at a time raises a `TypeError`. -/
def deleteKeys (keys : List String) : Storing Unit :=
  let uniqueKeys := distinct keys
  if uniqueKeys = [] then pure ()
  else Program.tryCatch (call (.delete uniqueKeys)) fun e =>
    if e.kind = .typeError then uniqueKeys.foldlM (fun _ key => call (.delete [key])) ()
    else .raise e

def delete (token : String) : Storing Unit := do
  let payload ← get settings token
  deleteKeys [loginTokenKey token]
  call (.srem loginTokensKey [token])
  match payload with
  | some session => call (.srem session.accountKey [token])
  | none => pure ()

def pruneExcessSessions (target : Target) (maxSessions : Int) : Storing Unit :=
  if maxSessions ≤ 0 then pure ()
  else do
    let sessions ← listAccountSessions settings target
    let excess := sessions.take (sessions.length - maxSessions.toNat)
    if (sessions.length : Int) ≤ maxSessions then pure ()
    else excess.foldlM (fun (_ : Unit) session => delete settings session.token) ()

/-- One token of a refresh: a session that is gone is not refreshed. -/
def refreshSession (updates : List (SessionPayload × String))
    (entry : (String × Target) × Option SessionPayload) :
    Storing (List (SessionPayload × String)) :=
  match entry with
  | (_, none) => pure updates
  | ((token, target), some _) => do
      let refreshed : SessionPayload ← call (.payloadFactory target token)
      return updates ++ [(refreshed, token)]

/-- `_set_sessions`. -/
def setSessions (updates : List (SessionPayload × String)) : Storing Unit :=
  if updates = [] then pure () else call (.setSessions settings.tokenTtlSeconds updates)

/-- The second half of a refresh: the tokens whose sessions are still there. -/
def refreshTokens (tokenTargets : List (String × Target)) : Storing Unit :=
  if tokenTargets = [] then pure ()
  else do
    let existing : List (Option SessionPayload) ←
      call (.mget (tokenTargets.map fun entry => loginTokenKey entry.1))
    let entries ← zipStrict tokenTargets existing
    let updates ← entries.foldlM refreshSession []
    setSessions settings updates

/-- The factories are known by the targets they are for. -/
def refreshAccountsSessions (targets payloadFactories : List Target) : Storing Unit :=
  let uniqueTargets := (distinct targets).filter (· ∈ payloadFactories)
  if uniqueTargets = [] then pure ()
  else do
    let tokenMap ← getAccountsTokens uniqueTargets
    refreshTokens settings (uniqueTargets.flatMap fun target =>
      ((tokenMap.lookup target).getD []).map fun token => (token, target))

def refreshAccountSessions (target : Target) : Storing Unit :=
  refreshAccountsSessions settings [target] [target]

def deleteAccountsSessions (targets : List Target) : Storing Unit :=
  let uniqueTargets := distinct targets
  if uniqueTargets = [] then pure ()
  else do
    let tokenMap ← getAccountsTokens uniqueTargets
    let tokens := distinct (tokenMap.flatMap Prod.snd)
    deleteKeys (distinct (tokens.map loginTokenKey ++ uniqueTargets.map Target.key))
    if tokens ≠ [] then call (.srem loginTokensKey tokens) else pure ()

def deleteAccountSessions (target : Target) : Storing Unit := deleteAccountsSessions [target]

end Methods

/-! ### The server -/

/-- The sessions and the indexes in Redis, and the clock. -/
structure World where
  strings : String → Option SessionPayload
  sets : String → List String
  clock : ℚ

namespace World

def setString (w : World) (key : String) (data : Option SessionPayload) : World :=
  { w with strings := Function.update w.strings key data }

def setSet (w : World) (key : String) (members : List String) : World :=
  { w with sets := Function.update w.sets key members }

def sadd (w : World) (key member : String) : World :=
  if member ∈ w.sets key then w else w.setSet key (w.sets key ++ [member])

def srem (w : World) (key : String) (members : List String) : World :=
  w.setSet key ((w.sets key).filter (· ∉ members))

def delete (w : World) (keys : List String) : World where
  strings key := if key ∈ keys then none else w.strings key
  sets key := if key ∈ keys then [] else w.sets key
  clock := w.clock

/-- The three commands of the pipeline for one refreshed session. -/
def setSession (w : World) (update : SessionPayload × String) : World :=
  ((w.setString (loginTokenKey update.2) (some update.1)).sadd update.1.accountKey update.2).sadd
    loginTokensKey update.2

def setSessions (w : World) (updates : List (SessionPayload × String)) : World :=
  updates.foldl setSession w

/-- Time goes on, and keys with a time to live may be gone. -/
def Later (w w' : World) : Prop :=
  w'.sets = w.sets ∧ w.clock ≤ w'.clock ∧
    ∀ key, w'.strings key = w.strings key ∨ w'.strings key = none

end World

/-- What a command answers when it succeeds; `SMEMBERS` lists a set in any order. -/
def answers (w : World) : (op : SessionOp) → op.Answer → World → Prop
  | .get key, a, w' => a = w.strings key ∧ w' = w
  | .mget keys, a, w' => a = keys.map w.strings ∧ w' = w
  | .setex key _ data _, _, w' => w' = w.setString key (some data)
  | .sadd key member, _, w' => w' = w.sadd key member
  | .srem key members, _, w' => w' = w.srem key members
  | .delete keys, _, w' => w' = w.delete keys
  | .smembers key, a, w' => a.Perm (w.sets key) ∧ w' = w
  | .smembersMany keys, a, w' =>
      List.Forall₂ (fun key row => row.Perm (w.sets key)) keys a ∧ w' = w
  | .setSessions _ updates, _, w' => w' = w.setSessions updates
  | .now, a, w' => a = w.clock ∧ w' = w
  | .payloadFactory .., _, w' => w' = w

/-- A factory may raise whatever it likes; commands fail only where `failures` says so, and
then without effect. -/
def redis (failures : Prop) : Machine SessionCalls Exc World where
  exec _ op w r w' :=
    match r with
    | .ok a => answers w op a w'
    | .error _ => w' = w ∧ (failures ∨ ∃ target token, op = .payloadFactory target token)
  drift := World.Later

/-- The methods requests may call, on any arguments. -/
inductive Method where
  | set (payload : SessionPayload) (ttlSeconds : Int)
  | get (token : String)
  | touch (token : String)
  | listTokens
  | listSessionsByTokens (tokens : List String)
  | listAccountSessions (target : Target)
  | pruneExcessSessions (target : Target) (maxSessions : Int)
  | refreshAccountsSessions (targets payloadFactories : List Target)
  | delete (token : String)
  | deleteAccountsSessions (targets : List Target)

def Method.program (settings : AuthSettings) : Method → Storing Unit
  | .set payload ttlSeconds => SessionStore.set payload ttlSeconds
  | .get token => do let _ ← SessionStore.get settings token
  | .touch token => SessionStore.touch settings token
  | .listTokens => do let _ ← SessionStore.listTokens
  | .listSessionsByTokens tokens => do let _ ← SessionStore.listSessionsByTokens settings tokens
  | .listAccountSessions target => do let _ ← SessionStore.listAccountSessions settings target
  | .pruneExcessSessions target maxSessions =>
      SessionStore.pruneExcessSessions settings target maxSessions
  | .refreshAccountsSessions targets payloadFactories =>
      SessionStore.refreshAccountsSessions settings targets payloadFactories
  | .delete token => SessionStore.delete settings token
  | .deleteAccountsSessions targets => SessionStore.deleteAccountsSessions targets

end AcojWorker.SessionStore
