import AcojWorker.Security.Logout
import Mathlib.Tactic.Linarith

/-!
# The idle time-out

A session that was idle too long is answered as none, but it stays in Redis: the commands that
should remove it are not awaited. It stays answered as none as long as nobody writes it anew;
`touch` does, since it looks at the raw key only.
-/

namespace AcojWorker.SessionStore

open Python Effect

variable {settings : AuthSettings} {failures : Prop} {token : String}

/-- The session was last active too long before the moment. -/
def IsIdle (settings : AuthSettings) (session : SessionPayload) (now : ℚ) : Prop :=
  0 < settings.sessionIdleTimeoutSeconds ∧ session.lastActiveAt ≠ none ∧
    session.idleAt settings now = true

instance (settings : AuthSettings) (session : SessionPayload) (now : ℚ) :
    Decidable (IsIdle settings session now) :=
  inferInstanceAs (Decidable (_ ∧ _ ∧ _))

/-- The session of the token is idle, or there is none. -/
def IdleOut (settings : AuthSettings) (token : String) (w : World) : Prop :=
  ∀ session, w.strings (loginTokenKey token) = some session → IsIdle settings session w.clock

/-- The command writes this session under the token. -/
def WritesSession (token : String) (data : SessionPayload) : SessionOp → Prop
  | .setex key _ written _ => key = loginTokenKey token ∧ written = data
  | .setSessions _ updates => (data, token) ∈ updates
  | _ => False

/-- Over a session that is idle or gone only sessions are written that are idle themselves. -/
def KeepsIdle (settings : AuthSettings) (token : String) (_ : Nat) (op : SessionOp) (w : World) :
    Prop :=
  IdleOut settings token w → ∀ data, WritesSession token data op → IsIdle settings data w.clock

theorem IsIdle.later {session : SessionPayload} {now now' : ℚ}
    (idle : IsIdle settings session now) (forward : now ≤ now') :
    IsIdle settings session now' := by
  refine ⟨idle.1, idle.2.1, ?_⟩
  have passed := of_decide_eq_true idle.2.2
  rw [SessionPayload.idleAt, decide_eq_true_eq]
  linarith

theorem IdleOut.later {w w' : World} (out : IdleOut settings token w) (later : w.Later w') :
    IdleOut settings token w' := by
  intro session there
  obtain same | gone := later.2.2 (loginTokenKey token)
  · exact (out session (same ▸ there)).later later.2.1
  · rw [gone] at there
    cases there

/-- What a pipeline leaves under a token is one of its updates, or what was there. -/
theorem setSessions_written {w : World} {updates : List (SessionPayload × String)}
    {session : SessionPayload}
    (there : (w.setSessions updates).strings (loginTokenKey token) = some session) :
    (session, token) ∈ updates ∨ w.strings (loginTokenKey token) = some session := by
  rw [World.setSessions] at there
  induction updates generalizing w with
  | nil => exact .inr there
  | cons u updates ih =>
      rw [List.foldl_cons] at there
      obtain later | before := ih there
      · exact .inl (List.mem_cons_of_mem _ later)
      · rw [World.setSession_strings] at before
        by_cases same : u.2 = token
        · rw [same, Function.update_self] at before
          left
          rw [← Option.some.inj before, ← same]
          exact List.mem_cons_self ..
        · rw [Function.update_of_ne fun h => same (loginTokenKey_inj.mp h.symm)] at before
          exact .inr before

theorem setSessions_clock (w : World) (updates : List (SessionPayload × String)) :
    (w.setSessions updates).clock = w.clock := by
  have sadd : ∀ (w : World) key member, (w.sadd key member).clock = w.clock := by
    intro w key member
    rw [World.sadd]
    split <;> rfl
  rw [World.setSessions]
  induction updates generalizing w with
  | nil => rfl
  | cons u updates ih => rw [List.foldl_cons, ih, World.setSession, sadd, sadd]; rfl

/-- What is found under a key after a command was there before, or the command has written it. -/
theorem written_exec {t : Nat} {op : SessionOp} {w w' : World} {r : Except Exc op.Answer}
    {session : SessionPayload} (exec : (redis failures).exec t op w r w')
    (there : w'.strings (loginTokenKey token) = some session) :
    w'.clock = w.clock ∧
      (WritesSession token session op ∨ w.strings (loginTokenKey token) = some session) := by
  cases r with
  | error e =>
      rw [exec.1] at there ⊢
      exact ⟨rfl, .inr there⟩
  | ok a =>
      cases op with
      | setex key ttl data origin =>
          have exec : w' = _ := exec
          subst exec
          refine ⟨rfl, ?_⟩
          by_cases same : loginTokenKey token = key
          · rw [World.setString_strings, same, Function.update_self] at there
            exact .inl ⟨same.symm, Option.some.inj there⟩
          · rw [World.setString_strings, Function.update_of_ne same] at there
            exact .inr there
      | sadd key member =>
          have exec : w' = _ := exec
          subst exec
          rw [World.sadd_strings] at there
          refine ⟨?_, .inr there⟩
          rw [World.sadd]
          split <;> rfl
      | srem key members =>
          have exec : w' = _ := exec
          subst exec
          exact ⟨rfl, .inr there⟩
      | delete keys =>
          have exec : w' = _ := exec
          subst exec
          refine ⟨rfl, .inr ?_⟩
          change (if _ then none else _) = _ at there
          split at there
          · cases there
          · exact there
      | setSessions ttl updates =>
          have exec : w' = _ := exec
          subst exec
          exact ⟨setSessions_clock w updates, setSessions_written there⟩
      | payloadFactory target token =>
          have exec : w' = w := exec
          subst exec
          exact ⟨rfl, .inr there⟩
      | _ =>
          rw [exec.2] at there ⊢
          exact ⟨rfl, .inr there⟩

theorem idleOut_exec {t : Nat} {op : SessionOp} {w w' : World} {r : Except Exc op.Answer}
    (out : IdleOut settings token w) (keeps : KeepsIdle settings token t op w)
    (exec : (redis failures).exec t op w r w') : IdleOut settings token w' := by
  intro session there
  obtain ⟨clock, written | before⟩ := written_exec exec there
  · rw [clock]
    exact keeps out session written
  · rw [clock]
    exact out session before

/-! ### What `get` says of an idle session -/

/-- The outcomes of `get`, with what is left in Redis. -/
theorem get_outcome {t : Nat} {w w' : World} {τ : Trace SessionCalls Exc}
    {found : Option SessionPayload}
    (h : (get settings token).Performs (redis failures) t w τ (.ok found) w') :
    (found = none → IdleOut settings token w') ∧ (IdleOut settings token w → found = none) := by
  obtain ⟨w₁, r, w₂, rest, before, exec, _, further⟩ := performs_call h
  cases r with
  | error e =>
      obtain ⟨_, out, _⟩ := performs_raise further
      cases out
  | ok raw =>
      obtain ⟨hraw, rfl⟩ := exec
      cases raw with
      | none =>
          obtain ⟨_, out, after⟩ := performs_ret further
          cases out
          refine ⟨fun _ session there => ?_, fun _ => rfl⟩
          have there := (later_of_run after).before there
          rw [← hraw] at there
          cases there
      | some session =>
          change (checkIdleTimeout settings session).Performs _ _ _ _ _ _ at further
          rw [checkIdleTimeout] at further
          split at further
          · next unlimited =>
            obtain ⟨_, out, _⟩ := performs_ret further
            cases out
            refine ⟨by simp, fun out => ?_⟩
            have idle := out.later (later_of_run before) session hraw.symm
            obtain off | missing := unlimited
            · exact absurd idle.1 (not_lt.mpr off)
            · exact absurd missing idle.2.1
          · next limited =>
            rw [not_or, not_le] at limited
            obtain ⟨_, r, w₄, _, between, exec, _, further⟩ := performs_call further
            cases r with
            | error e =>
                obtain ⟨_, out, _⟩ := performs_raise further
                cases out
            | ok now =>
                obtain ⟨hnow, rfl⟩ := exec
                change Program.Performs _ _ (if _ then _ else _) _ _ _ _ at further
                split at further
                · next idle =>
                  obtain ⟨_, out, after⟩ := performs_ret further
                  cases out
                  have idle : IdleOut settings token w₄ := by
                    -- What is found now was there when it was read, or it is gone.
                    intro s there
                    have read := (later_of_run between).before there
                    rw [← hraw] at read
                    cases read
                    exact ⟨limited.1, limited.2, hnow ▸ idle⟩
                  exact ⟨fun _ => idle.later (later_of_run after), fun _ => rfl⟩
                · next fresh =>
                  obtain ⟨_, out, _⟩ := performs_ret further
                  cases out
                  refine ⟨by simp, fun out => absurd ?_ fresh⟩
                  have idle := out.later (later_of_run before) session hraw.symm
                  rw [hnow]
                  exact (idle.later (later_of_run between).2.1).2.2

/-- Once `get` has answered none, it answers none as long as no session is written over the idle
one that is not idle itself. -/
theorem idle_stays_out (settings : AuthSettings) (failures : Prop) (token : String)
    {t : Nat} {w : World} {τ : Trace SessionCalls Exc} {c c' : Pool SessionCalls Exc World}
    (answered : (get settings token).Performs (redis failures) t w τ (.ok none) c.state)
    (run : Relation.ReflTransGen
      (Pool.Step (redis failures) (Starts settings) (KeepsIdle settings token)) c c') :
    Ended settings failures token c'.state := by
  have out : IdleOut settings token c'.state :=
    state_run (fun _ _ out later => out.later later)
      (fun _ _ _ _ _ out keeps exec => idleOut_exec out keeps exec) run
      ((get_outcome answered).1 rfl)
  intro t τ session w' h
  cases (get_outcome h).2 out

/-! ### A request in the background -/

/-- Ten minutes without activity end a session. -/
def idleSettings : AuthSettings := ⟨60 * 60 * 4, 60 * 60 * 2, 60 * 10⟩

/-- A session that was active last at the moment zero. -/
def quietSession : SessionPayload :=
  { token := "t", accountId := "7", accountType := "ADMIN", lastActiveAt := some (.at 0) }

/-- That session in Redis an hour later. -/
def anHourLater : World :=
  { World.empty.setString (loginTokenKey "t") (some quietSession) with clock := 3600 }

theorem get_idle : (get idleSettings "t").Performs (redis False) 0 anHourLater
    [⟨.get (loginTokenKey "t"), .ok (some quietSession)⟩, ⟨.now, .ok 3600⟩] (.ok none)
    anHourLater := by
  have read : (redis False).exec 0 (.get (loginTokenKey "t")) anHourLater
      (.ok (some quietSession)) anHourLater := ⟨rfl, rfl⟩
  have now : (redis False).exec 0 .now anHourLater (.ok 3600) anHourLater := ⟨rfl, rfl⟩
  have idle : quietSession.idleAt idleSettings 3600 = true := by decide +kernel
  refine ⟨.call _ (.call _ ?_), .call read (.call now .done)⟩
  change Program.Yields (if quietSession.idleAt idleSettings 3600 then _ else _) _ _
  rw [if_pos idle]
  exact .ret _

/-- `get` answers none, a `touch` of the same token follows, and the session is back. -/
theorem idle_comes_back : ¬ ∀ (t : Nat) (w : World) τ (c c' : Pool SessionCalls Exc World),
    (∃ session, w.strings (loginTokenKey "t") = some session ∧
      IsIdle idleSettings session w.clock) →
    (get idleSettings "t").Performs (redis False) t w τ (.ok none) c.state →
    Steps False (StartsWithout idleSettings "t") c c' → Ended idleSettings False "t" c'.state := by
  intro stays
  have follows : ∀ t : Nat, reply.Follows (redis False) Free t := reply_follows False
  let schedule : List (Effect.Move SessionCalls Exc) :=
    [.start 0 (touch idleSettings "t"), .turn 0, .turn 0, .turn 0]
  let c' := (idlePool anHourLater).after (fun _ => reply) schedule
  have play : (idlePool anHourLater).play (fun _ => reply) schedule = some c' :=
    play_after (by decide +kernel)
  have run : Steps False (StartsWithout idleSettings "t") (idlePool anHourLater) c' := by
    apply steps_play follows (fun t p h => ?_) play
    simp only [schedule, List.mem_cons, List.not_mem_nil, or_false, Move.start.injEq,
      reduceCtorEq] at h
    exact ⟨.touch "t", rfl, h.2⟩
  obtain ⟨session, found⟩ : ∃ session, sessionFound idleSettings "t" c'.state = some session :=
    Option.isSome_iff_exists.mp (by decide +kernel)
  obtain ⟨τ, w', performs⟩ := sessionFound_performs False 0 found
  exact stays 0 anHourLater _ (idlePool anHourLater) c' ⟨quietSession, rfl, by decide +kernel⟩
    get_idle run 0 τ session w' performs

/-- Without any such write the session stays out: here nothing happens but the passing of time. -/
theorem idle_stays_out_later :
    Ended idleSettings False "t" { anHourLater with clock := 7200 } := by
  have later : Relation.ReflTransGen
      (Pool.Step (redis False) (Starts idleSettings) (KeepsIdle idleSettings "t"))
      (idlePool anHourLater) (idlePool { anHourLater with clock := 7200 }) :=
    .single (.drift ⟨rfl, by decide +kernel, fun _ => .inl rfl⟩)
  exact idle_stays_out idleSettings False "t" get_idle later

end AcojWorker.SessionStore
