import AcojWorker.Data.Subscription
import AcojWorker.Python.Utf8
import AcojWorker.Python.Value
import Mathlib.Logic.Function.Basic
import Mathlib.Logic.Relation

/-!
# Configuration changes across instances

An instance that changed its configuration reloads it and publishes an event on a channel; the
others reload when they hear of it, and everyone ignores its own events. The channel forwards a
message to whoever is subscribed and keeps nothing: a listener that loses its connection, or fails
over a message, loses what is pending, waits for a while and subscribes again.

Any number of instances, started, stopped, publishing and failing in any order, is one run. Whoever
else publishes on the channel may publish any bytes.
-/

namespace AcojWorker.ConfigSync

open Python Relation Subscription

/-- What `get_message` gives as the data of a message. -/
inductive Raw where
  | none
  | bytes (data : List UInt8)
  | str (text : String)
  | number (n : Int)
deriving DecidableEq, Repr

structure Message where
  type : String
  data : Raw
deriving DecidableEq, Repr

section Events

-- `json.loads`, which may raise an exception of some class, and `json.dumps`.
variable (loads : String → Except String Value) (dumps : Value → String)

/-- `raw.decode("utf-8")`: bytes are a text exactly if they are its encoding. -/
def decodeStrict (data : List UInt8) : Except String String :=
  if encodeUtf8 (decodeUtf8 data) = data then .ok (String.ofList (decodeUtf8 data))
  else .error "UnicodeDecodeError"

def parseEvent (text : String) : Except String (Option (List (String × Value))) :=
  match loads text with
  | .ok (.dict fields) => .ok (some fields)
  | .ok _ => .ok none
  | .error e => if e = "JSONDecodeError" then .ok none else .error e

def decodeEvent : Raw → Except String (Option (List (String × Value)))
  | .none => .ok none
  | .bytes data =>
      match decodeStrict data with
      | .error e => .error e
      | .ok text => parseEvent loads text
  | .str text => parseEvent loads text
  | .number _ => .ok none

/-- `event.get("source") == instance_id` -/
def fromSource (instanceId : String) (event : List (String × Value)) : Bool :=
  match event.find? fun field => field.1 = "source" with
  | some (_, .str source) => source = instanceId
  | _ => false

/-- The message makes the instance reload. -/
def heeds (instanceId : String) (message : Message) : Bool :=
  message.type = "message" &&
    match decodeEvent loads message.data with
    | .ok (some event) => !event.isEmpty && !fromSource instanceId event
    | _ => false

def payload (instanceId reason at_ : String) (version : Nat) : Value :=
  .dict [("source", .str instanceId), ("reason", .str reason), ("version", .int version),
    ("at", .str at_)]

/-- What arrives at the subscribers when a payload is published. -/
def changeMessage (instanceId reason at_ : String) (version : Nat) : Message :=
  ⟨"message", .bytes (encodeUtf8 (dumps (payload instanceId reason at_ version)).toList)⟩

end Events

/-! ### Instances -/

/-- How far the listener task has come: it does not run, subscribes, waits for messages, or
sleeps after a failure. -/
inductive Stage where
  | off
  | connecting
  | listening
  | sleeping
deriving DecidableEq, Repr

/-- One process: whether its Redis client is there, the version of its configuration, its listener
and what it reports. The state also counts the reloads the process made for its own reasons. -/
structure Instance where
  redis : Bool
  version : Nat
  stage : Stage
  inbox : Listener Message
  lastEventAt : Option String
  lastError : Option String
  own : Nat

namespace Instance

def init : Instance where
  redis := false
  version := 0
  stage := .off
  inbox := .idle
  lastEventAt := none
  lastError := none
  own := 0

/-- `load_all`, called by the process itself; a `reload` that raises has done no more. -/
def loadAll (inst : Instance) : Instance :=
  { inst with version := inst.version + 1, own := inst.own + 1 }

def setError (error : Option String) (inst : Instance) : Instance :=
  { inst with lastError := error }

/-- An exception in the listener: it closes its subscription and sleeps. -/
def fail (error : String) (inst : Instance) : Instance :=
  { inst with stage := .sleeping, inbox := inst.inbox.leave, lastError := some error }

def startListener (inst : Instance) : Instance :=
  if inst.stage ≠ .off then inst
  else if inst.redis then { inst with stage := .connecting }
  else inst.setError (some "redis not initialized")

def stopListener (inst : Instance) : Instance :=
  { inst with stage := .off, inbox := inst.inbox.leave }

def subscribed (published : Nat) (inst : Instance) : Instance :=
  { inst with stage := .listening, inbox := inst.inbox.subscribe published }

/-- The listener takes the first pending message. -/
def take (published : Nat) (message : Message) (rest : List Message) (inst : Instance) : Instance :=
  { inst with inbox := inst.inbox.take published message rest }

/-- What the listener does with a message; `reloaded` is the exception that the reload raises after
it has counted up the version, if any. -/
def handle (loads : String → Except String Value) (instanceId : String) (message : Message)
    (reloaded : Option String) (now : String) (inst : Instance) : Instance :=
  if message.type ≠ "message" then inst
  else
    match decodeEvent loads message.data with
    | .error e => inst.fail e
    | .ok none => inst
    | .ok (some event) =>
        if event.isEmpty || fromSource instanceId event then inst
        else
          let inst := { inst with version := inst.version + 1 }
          match reloaded with
          | some e => inst.fail e
          | none => { inst with lastEventAt := some now, lastError := none }

end Instance

/-! ### Runs -/

/-- A call of `publish_config_changed` that has handed its message to the client. -/
structure Publication where
  source : String
  message : Message
  arrived : Bool
  result : Option Bool
deriving DecidableEq

/-- The instances by their ids, everything that has arrived at the channel, and the calls. -/
structure State where
  instances : String → Instance
  history : List Message
  publications : List Publication

namespace State

def init : State := ⟨fun _ => .init, [], []⟩

def modify (s : State) (i : String) (f : Instance → Instance) : State :=
  { s with instances := Function.update s.instances i (f (s.instances i)) }

/-- The server forwards a message to all subscriptions. -/
def forward (s : State) (message : Message) : State :=
  { s with
    instances := fun i =>
      { s.instances i with inbox := (s.instances i).inbox.deliver message }
    history := s.history ++ [message] }

/-- `reload_and_publish`, up to the call of the client. -/
def change (dumps : Value → String) (s : State) (i reason at_ : String) : State :=
  let s := s.modify i .loadAll
  if (s.instances i).redis then
    { s with publications := s.publications ++
        [⟨i, changeMessage dumps i reason at_ (s.instances i).version, false, none⟩] }
  else s.modify i (.setError (some "redis not initialized"))

def receive (loads : String → Except String Value) (s : State) (i : String) (message : Message)
    (rest : List Message) (reloaded : Option String) (now : String) : State :=
  s.modify i fun inst =>
    (inst.take s.history.length message rest).handle loads i message reloaded now

end State

section Steps

variable (loads : String → Except String Value) (dumps : Value → String)

inductive Step : State → State → Prop
  | redis {s : State} (i : String) (up : Bool) :
      Step s (s.modify i fun inst => { inst with redis := up })
  | loadAll {s : State} (i : String) : Step s (s.modify i .loadAll)
  | change {s : State} (i reason at_ : String) : Step s (s.change dumps i reason at_)
  | arrive {s : State} {k : Nat} {p : Publication} (call : s.publications[k]? = some p)
      (underway : p.arrived = false) :
      Step s { s.forward p.message with
        publications := s.publications.set k { p with arrived := true } }
  | published {s : State} {k : Nat} {p : Publication} (call : s.publications[k]? = some p)
      (arrived : p.arrived = true) (waiting : p.result = none) :
      Step s { s.modify p.source (.setError none) with
        publications := s.publications.set k { p with result := some true } }
  | unpublished {s : State} {k : Nat} {p : Publication} (error : String)
      (call : s.publications[k]? = some p) (waiting : p.result = none) :
      Step s { s.modify p.source (.setError (some error)) with
        publications := s.publications.set k { p with result := some false } }
  | foreign {s : State} (message : Message) : Step s (s.forward message)
  | start {s : State} (i : String) : Step s (s.modify i .startListener)
  | stop {s : State} (i : String) : Step s (s.modify i .stopListener)
  | subscribed {s : State} (i : String) (connecting : (s.instances i).stage = .connecting) :
      Step s (s.modify i (.subscribed s.history.length))
  | unsubscribed {s : State} (i error : String) (connecting : (s.instances i).stage = .connecting) :
      Step s (s.modify i (.fail error))
  | receive {s : State} (i : String) {message : Message} {rest : List Message}
      (reloaded : Option String) (now : String) (listening : (s.instances i).stage = .listening)
      (pending : (s.instances i).inbox.pending = some (message :: rest)) :
      Step s (s.receive loads i message rest reloaded now)
  | disconnect {s : State} (i error : String) (listening : (s.instances i).stage = .listening) :
      Step s (s.modify i (.fail error))
  | wake {s : State} (i : String) (sleeping : (s.instances i).stage = .sleeping) :
      Step s (s.modify i fun inst => { inst with stage := .connecting })

def Reachable : State → Prop := ReflTransGen (Step loads dumps) .init

end Steps

/-! ### What an instance hears -/

section Hearing

variable {loads : String → Except String Value} {dumps : Value → String} {i : String}
  {inst : Instance} {history : List Message} {message : Message} {rest : List Message}

/-- The number is that of a message that makes the instance reload. -/
def heedsAt (loads : String → Except String Value) (i : String) (history : List Message)
    (n : Nat) : Bool :=
  match history[n]? with
  | some message => heeds loads i message
  | none => false

/-- The messages that made the instance reload, by their numbers on the channel. -/
def heard (loads : String → Except String Value) (i : String) (history : List Message)
    (inst : Instance) : List Nat :=
  inst.inbox.taken.filter (heedsAt loads i history)

theorem heedsAt_append {n : Nat} (old : n < history.length) (message : Message) :
    heedsAt loads i (history ++ [message]) n = heedsAt loads i history n := by
  rw [heedsAt, heedsAt, List.getElem?_append_left old]

/-- What holds of an instance between two steps. -/
structure Sound (loads : String → Except String Value) (i : String) (history : List Message)
    (inst : Instance) : Prop where
  follows : inst.inbox.Follows history
  listening : inst.stage = .listening ↔ inst.inbox.pending ≠ none
  version : inst.version = inst.own + (heard loads i history inst).length

theorem Sound.error (sound : Sound loads i history inst) (error : Option String) :
    Sound loads i history (inst.setError error) :=
  ⟨sound.follows, sound.listening, sound.version⟩

theorem Sound.fail (sound : Sound loads i history inst) (error : String) :
    Sound loads i history (inst.fail error) :=
  ⟨sound.follows.leave, by simp [Instance.fail, Listener.leave], sound.version⟩

theorem Sound.stop (sound : Sound loads i history inst) :
    Sound loads i history inst.stopListener :=
  ⟨sound.follows.leave, by simp [Instance.stopListener, Listener.leave], sound.version⟩

theorem Sound.loadAll (sound : Sound loads i history inst) : Sound loads i history inst.loadAll where
  follows := sound.follows
  listening := sound.listening
  version := by
    change inst.version + 1 = inst.own + 1 + (heard loads i history inst).length
    rw [sound.version]
    omega

theorem Sound.subscribe (sound : Sound loads i history inst) :
    Sound loads i history (inst.subscribed history.length) :=
  ⟨sound.follows.subscribe, by simp [Instance.subscribed, Listener.subscribe], sound.version⟩

/-- The listener is not waiting for messages, before and after. -/
theorem Sound.move (sound : Sound loads i history inst) {stage : Stage}
    (before : inst.stage ≠ .listening) (after : stage ≠ .listening) :
    Sound loads i history { inst with stage := stage } :=
  ⟨sound.follows, iff_of_false after (sound.listening.not.mp before), sound.version⟩

theorem Sound.start (sound : Sound loads i history inst) :
    Sound loads i history inst.startListener := by
  rw [Instance.startListener]
  split
  · exact sound
  · next off =>
      split
      · exact sound.move (by rw [not_not.mp off]; simp) (by simp)
      · exact sound.error _

theorem Sound.forward (sound : Sound loads i history inst) (message : Message) :
    Sound loads i (history ++ [message])
      { inst with inbox := inst.inbox.deliver message } where
  follows := sound.follows.publish message
  listening := by
    rw [sound.listening]
    simp [Listener.deliver]
  version := by
    have same : heard loads i (history ++ [message])
        { inst with inbox := inst.inbox.deliver message } = heard loads i history inst :=
      List.filter_congr fun n mem => heedsAt_append (sound.follows.published n mem) message
    rw [same]
    exact sound.version

/-- What `handle` does, whichever way it goes. -/
theorem handle_cases (loads : String → Except String Value) (i : String) (message : Message)
    (reloaded : Option String) (now : String) (inst : Instance) :
    let handled := inst.handle loads i message reloaded now
    (handled.inbox = inst.inbox ∧ handled.stage = inst.stage ∨
        handled.inbox = inst.inbox.leave ∧ handled.stage = .sleeping) ∧
      handled.own = inst.own ∧
      handled.version = inst.version + if heeds loads i message then 1 else 0 := by
  simp only [Instance.handle, heeds]
  by_cases type : message.type = "message"
  · simp only [type, ne_eq, not_true_eq_false, if_false, decide_true, Bool.true_and]
    cases decodeEvent loads message.data with
    | error e => exact ⟨.inr ⟨rfl, rfl⟩, rfl, by simp [Instance.fail]⟩
    | ok event =>
        cases event with
        | none => exact ⟨.inl ⟨rfl, rfl⟩, rfl, by simp⟩
        | some event =>
            cases skipped : event.isEmpty || fromSource i event with
            | true =>
                have unheeded : (!event.isEmpty && !fromSource i event) = false := by
                  rw [← Bool.not_or, skipped]
                  rfl
                simp only [skipped, unheeded, if_true]
                simp
            | false =>
                have heeded : (!event.isEmpty && !fromSource i event) = true := by
                  rw [← Bool.not_or, skipped]
                  rfl
                simp only [skipped, heeded, Bool.false_eq_true, if_false, if_true]
                cases reloaded with
                | none => exact ⟨.inl ⟨rfl, rfl⟩, rfl, rfl⟩
                | some e => exact ⟨.inr ⟨rfl, rfl⟩, rfl, rfl⟩
  · simp [type]

theorem Sound.receive (sound : Sound loads i history inst)
    (pending : inst.inbox.pending = some (message :: rest)) (reloaded : Option String)
    (now : String) :
    Sound loads i history
      ((inst.take history.length message rest).handle loads i message reloaded now) := by
  have taken := sound.follows.take pending
  have next := sound.follows.next pending
  obtain ⟨where_, own, version⟩ := handle_cases loads i message reloaded now
    (inst.take history.length message rest)
  have listening : inst.stage = .listening := sound.listening.mpr (by simp [pending])
  have counted : heard loads i history (inst.take history.length message rest) =
      heard loads i history inst ++ if heeds loads i message then
        [Listener.position history.length (message :: rest)] else [] := by
    rw [heard, Instance.take, Listener.take, List.filter_append, heard]
    refine congrArg _ ?_
    rw [List.filter_singleton, Bool.cond_eq_ite, heedsAt, next]
  generalize (inst.take history.length message rest).handle loads i message reloaded now =
    handled at where_ own version ⊢
  have same : heard loads i history handled =
      heard loads i history (inst.take history.length message rest) := by
    obtain ⟨inbox, -⟩ | ⟨inbox, -⟩ := where_
    · rw [heard, inbox, heard]
    · rw [heard, inbox, heard]
      rfl
  refine ⟨?_, ?_, ?_⟩
  · obtain ⟨inbox, -⟩ | ⟨inbox, -⟩ := where_
    · rw [inbox]
      exact taken
    · rw [inbox]
      exact taken.leave
  · obtain ⟨inbox, stage⟩ | ⟨inbox, stage⟩ := where_
    · rw [inbox, stage]
      exact iff_of_true listening (by simp [Instance.take, Listener.take])
    · rw [inbox, stage]
      exact iff_of_false (by simp) (by simp [Listener.leave])
  · rw [version, own, same, counted, List.length_append]
    change inst.version + _ = inst.own + _
    rw [sound.version]
    split <;> simp [Nat.add_assoc]

variable {s s' : State}

/-- Every instance is where its numbers say. -/
def AllSound (loads : String → Except String Value) (s : State) : Prop :=
  ∀ i, Sound loads i s.history (s.instances i)

theorem allSound_modify (sound : AllSound loads s) {f : Instance → Instance}
    (changed : Sound loads i s.history (f (s.instances i))) : AllSound loads (s.modify i f) := by
  intro j
  by_cases here : j = i
  · subst here
    simp only [State.modify, Function.update_self]
    exact changed
  · simp only [State.modify, Function.update_of_ne here]
    exact sound j

theorem allSound_step (step : Step loads dumps s s') (sound : AllSound loads s) :
    AllSound loads s' := by
  cases step with
  | redis i up =>
      exact allSound_modify sound ⟨(sound i).follows, (sound i).listening, (sound i).version⟩
  | loadAll i => exact allSound_modify sound (sound i).loadAll
  | change i reason at_ =>
      have loaded : AllSound loads (s.modify i .loadAll) :=
        allSound_modify sound (sound i).loadAll
      rw [State.change]
      split
      · exact loaded
      · exact allSound_modify loaded ((loaded i).error _)
  | arrive => exact fun i => (sound i).forward _
  | published => exact allSound_modify sound ((sound _).error _)
  | unpublished => exact allSound_modify sound ((sound _).error _)
  | foreign message => exact fun i => (sound i).forward message
  | start i => exact allSound_modify sound (sound i).start
  | stop i => exact allSound_modify sound (sound i).stop
  | subscribed i connecting => exact allSound_modify sound (sound i).subscribe
  | unsubscribed i error connecting => exact allSound_modify sound ((sound i).fail error)
  | receive i reloaded now listening pending =>
      exact allSound_modify sound ((sound i).receive pending reloaded now)
  | disconnect i error listening => exact allSound_modify sound ((sound i).fail error)
  | wake i sleeping =>
      exact allSound_modify sound ((sound i).move (by simp [sleeping]) (by simp))

theorem allSound (reachable : Reachable loads dumps s) : AllSound loads s := by
  induction reachable with
  | refl =>
      exact fun i => ⟨Listener.follows_idle _, by simp [State.init, Instance.init, Listener.idle], rfl⟩
  | tail _ step ih => exact allSound_step step ih

/-! ### Who hears a change -/

/-- `json.loads` of the one text that is published. -/
def loadsOne (text : String) : Except String Value :=
  if text = "\x7b\"source\": \"b\"\x7d" then .ok (.dict [("source", .str "b")])
  else .error "JSONDecodeError"

def oneEvent : Message :=
  ⟨"message", .bytes (encodeUtf8 "\x7b\"source\": \"b\"\x7d".toList)⟩

/-- Instance `a` subscribes, and an event of instance `b` arrives. -/
def pendingOne : State :=
  (((State.init.modify "a" fun inst => { inst with redis := true }).modify "a"
    .startListener).modify "a" (.subscribed 0)).forward oneEvent

theorem pendingOne_reachable : Reachable loadsOne (fun _ => "null") pendingOne := by
  refine .tail (.tail (.tail (.single (.redis "a" true)) (.start "a")) (.subscribed "a" ?_))
    (.foreign oneEvent)
  rfl

/-- Reading back what was written gives the payload. -/
def RoundTrip (loads : String → Except String Value) (dumps : Value → String) : Prop :=
  ∀ i reason at_ version,
    loads (dumps (payload i reason at_ version)) = .ok (payload i reason at_ version)

theorem heeds_changeMessage (roundTrip : RoundTrip loads dumps) (j reason at_ : String)
    (version : Nat) :
    heeds loads i (changeMessage dumps j reason at_ version) = decide (j ≠ i) := by
  have read := roundTrip j reason at_ version
  have decoded : decodeEvent loads (changeMessage dumps j reason at_ version).data =
      .ok (some [("source", .str j), ("reason", .str reason), ("version", .int version),
        ("at", .str at_)]) := by
    simp only [changeMessage, decodeEvent, decodeStrict, decodeUtf8_encodeUtf8, if_true,
      String.ofList_toList, parseEvent, read]
    rfl
  rw [heeds, decoded]
  simp [changeMessage, fromSource]

/-- What an instance heeds is a nonempty event of another source. -/
theorem heeds_iff : heeds loads i message = true ↔ message.type = "message" ∧
    ∃ event, decodeEvent loads message.data = .ok (some event) ∧ event ≠ [] ∧
      fromSource i event = false := by
  rw [heeds, Bool.and_eq_true, decide_eq_true_iff]
  refine and_congr_right fun _ => ?_
  cases decodeEvent loads message.data with
  | error e => simp
  | ok event =>
      cases event with
      | none => simp
      | some event => simp

/-- However the instances are started, stopped, disconnected and interleaved: the messages that
make an instance reload do so once each and in the order in which they reached the channel, each
is an event of another source, and the instance reloads for nothing else but its own reasons. -/
theorem heard_once (reachable : Reachable loads dumps s) (i : String) :
    (heard loads i s.history (s.instances i)).Pairwise (· < ·) ∧
      (∀ n ∈ heard loads i s.history (s.instances i), ∃ message event,
        s.history[n]? = some message ∧ decodeEvent loads message.data = .ok (some event) ∧
          fromSource i event = false) ∧
      (s.instances i).version =
        (s.instances i).own + (heard loads i s.history (s.instances i)).length := by
  have sound := allSound reachable i
  refine ⟨sound.follows.ordered.filter _, fun n mem => ?_, sound.version⟩
  have heeded := (List.mem_filter.mp mem).2
  rw [heedsAt] at heeded
  split at heeded
  · next message there =>
      obtain ⟨-, event, decoded, -, other⟩ := heeds_iff.mp heeded
      exact ⟨message, event, there, decoded, other⟩
  · cases heeded

theorem heard_once_pendingOne :
    (heard loadsOne "a" pendingOne.history (pendingOne.instances "a")).Pairwise (· < ·) ∧
      (∀ n ∈ heard loadsOne "a" pendingOne.history (pendingOne.instances "a"),
        ∃ message event, pendingOne.history[n]? = some message ∧
          decodeEvent loadsOne message.data = .ok (some event) ∧
            fromSource "a" event = false) ∧
      (pendingOne.instances "a").version = (pendingOne.instances "a").own +
        (heard loadsOne "a" pendingOne.history (pendingOne.instances "a")).length :=
  heard_once pendingOne_reachable "a"

/-- While an instance listens, what is pending is the end of the channel's history, and from the
beginning of its subscription up to there it has heard everything that it heeds. -/
theorem heard_iff (reachable : Reachable loads dumps s)
    {queue : List Message} (pending : (s.instances i).inbox.pending = some queue) {n : Nat}
    (subscribed : (s.instances i).inbox.since ≤ n) :
    n ∈ heard loads i s.history (s.instances i) ↔
      n + queue.length < s.history.length ∧ heedsAt loads i s.history n = true := by
  have sound := allSound reachable i
  have place : n < Listener.position s.history.length queue ↔
      n + queue.length < s.history.length := by
    simp only [Listener.position]
    omega
  rw [heard, List.mem_filter, ← place]
  constructor
  · rintro ⟨taken, heeded⟩
    exact ⟨sound.follows.passed queue pending n taken, heeded⟩
  · rintro ⟨passed, heeded⟩
    exact ⟨sound.follows.complete queue pending n subscribed passed, heeded⟩

theorem heard_iff_pendingOne :
    0 ∈ heard loadsOne "a" pendingOne.history (pendingOne.instances "a") ↔
      0 + [oneEvent].length < pendingOne.history.length ∧
        heedsAt loadsOne "a" pendingOne.history 0 = true :=
  heard_iff pendingOne_reachable rfl (Nat.le_refl 0)

/-! ### What can still be heard -/

/-- Decoding the message does not raise. -/
def readable (loads : String → Except String Value) (message : Message) : Bool :=
  message.type ≠ "message" || (decodeEvent loads message.data).isOk

def readableAt (loads : String → Except String Value) (history : List Message) (n : Nat) : Bool :=
  match history[n]? with
  | some message => readable loads message
  | none => true

/-- The message is pending at the listener, and nothing before it stops the listener. -/
def Awaited (loads : String → Except String Value) (history : List Message)
    (l : Listener Message) (n : Nat) : Prop :=
  ∃ queue, l.pending = some queue ∧ Listener.position history.length queue ≤ n ∧
    ∀ k, Listener.position history.length queue ≤ k → k < n → readableAt loads history k = true

theorem handle_stays {now : String} {inst : Instance} {reloaded : Option String}
    (stays : (inst.handle loads i message reloaded now).stage = .listening) :
    readable loads message = true := by
  rw [readable]
  by_cases type : message.type = "message"
  · cases decoded : decodeEvent loads message.data with
    | error e =>
        rw [Instance.handle, if_neg (not_not.mpr type), decoded] at stays
        cases stays
    | ok event => simp [Except.isOk, Except.toBool]
  · simp [type]

/-- A readable message is taken without an exception if the reload raises none. -/
theorem handle_readable (readable_ : readable loads message = true) (now : String)
    (inst : Instance) : (inst.handle loads i message none now).inbox = inst.inbox ∧
      (inst.handle loads i message none now).stage = inst.stage := by
  rw [Instance.handle]
  split
  · exact ⟨rfl, rfl⟩
  · next type =>
      rw [readable, decide_eq_false type, Bool.false_or] at readable_
      cases decoded : decodeEvent loads message.data with
      | error e =>
          rw [decoded] at readable_
          cases readable_
      | ok event =>
          cases event with
          | none => exact ⟨rfl, rfl⟩
          | some event =>
              simp only []
              split
              · exact ⟨rfl, rfl⟩
              · exact ⟨rfl, rfl⟩

/-- What a step does to the listener of an instance: nothing; it leaves; it subscribes; something
is published; or it takes a message, which it can read unless it leaves. -/
inductive Moves (loads : String → Except String Value) :
    List Message → Listener Message → List Message → Listener Message → Prop
  | same {h : List Message} {l : Listener Message} : Moves loads h l h l
  | leave {h : List Message} {l : Listener Message} : Moves loads h l h l.leave
  | subscribe {h : List Message} {l : Listener Message} :
      Moves loads h l h (l.subscribe h.length)
  | publish {h : List Message} {l : Listener Message} (message : Message) :
      Moves loads h l (h ++ [message]) (l.deliver message)
  | take {h : List Message} {l : Listener Message} {message : Message} {rest : List Message}
      (pending : l.pending = some (message :: rest)) (readable_ : readable loads message = true) :
      Moves loads h l h (l.take h.length message rest)
  | fail {h : List Message} {l : Listener Message} {message : Message} {rest : List Message}
      (pending : l.pending = some (message :: rest)) :
      Moves loads h l h (l.take h.length message rest).leave

theorem moves_modify {j : String} {f : Instance → Instance}
    (moves : Moves loads s.history (s.instances j).inbox s.history (f (s.instances j)).inbox)
    (i : String) : Moves loads s.history (s.instances i).inbox s.history
      ((s.modify j f).instances i).inbox := by
  by_cases here : i = j
  · subst here
    simp only [State.modify, Function.update_self]
    exact moves
  · simp only [State.modify, Function.update_of_ne here]
    exact .same

theorem moves_step (step : Step loads dumps s s') (i : String) :
    Moves loads s.history (s.instances i).inbox s'.history (s'.instances i).inbox := by
  cases step with
  | redis j up => exact moves_modify .same i
  | loadAll j => exact moves_modify .same i
  | change j reason at_ =>
      have loaded : ((s.modify j .loadAll).instances i).inbox = (s.instances i).inbox := by
        by_cases here : i = j
        · subst here
          simp only [State.modify, Function.update_self]
          rfl
        · simp only [State.modify, Function.update_of_ne here]
      rw [State.change]
      split
      · rw [loaded]
        exact .same
      · rw [← loaded]
        exact moves_modify (s := s.modify j .loadAll) .same i
  | arrive => exact .publish _
  | published => exact moves_modify .same i
  | unpublished => exact moves_modify .same i
  | foreign message => exact .publish message
  | start j =>
      refine moves_modify ?_ i
      have kept : (s.instances j).startListener.inbox = (s.instances j).inbox := by
        rw [Instance.startListener]
        split
        · rfl
        · split <;> rfl
      rw [kept]
      exact .same
  | stop j => exact moves_modify .leave i
  | subscribed j connecting => exact moves_modify .subscribe i
  | unsubscribed j error connecting => exact moves_modify .leave i
  | @receive j message rest reloaded now listening pending =>
      refine moves_modify ?_ i
      obtain ⟨kept, -⟩ := handle_cases loads j message reloaded now
        ((s.instances j).take s.history.length message rest)
      obtain ⟨inbox, stage⟩ | ⟨inbox, -⟩ := kept
      · rw [inbox]
        exact .take pending (handle_stays (stage.trans listening))
      · rw [inbox]
        exact .fail pending
  | disconnect j error listening => exact moves_modify .leave i
  | wake j sleeping => exact moves_modify .same i

/-- A message that is neither taken nor awaited will not be taken any more. -/
theorem missed_moves {h h' : List Message} {l l' : Listener Message} (follows : l.Follows h)
    (moves : Moves loads h l h' l') {n : Nat} (old : n < h.length) (untaken : n ∉ l.taken)
    (unawaited : ¬ Awaited loads h l n) : n ∉ l'.taken ∧ ¬ Awaited loads h' l' n := by
  have passes : ∀ {message : Message} {rest : List Message},
      l.pending = some (message :: rest) → n ∉ (l.take h.length message rest).taken := by
    intro message rest pending mem
    obtain mem | mem := List.mem_append.mp mem
    · exact untaken mem
    · rw [List.mem_singleton] at mem
      exact unawaited ⟨_, pending, mem.ge, fun k low high => by omega⟩
  cases moves with
  | same => exact ⟨untaken, unawaited⟩
  | leave =>
      refine ⟨untaken, ?_⟩
      rintro ⟨queue, pending, -⟩
      cases pending
  | subscribe =>
      refine ⟨untaken, ?_⟩
      rintro ⟨queue, pending, low, -⟩
      obtain rfl := Option.some.inj pending
      simp only [Listener.position, List.length_nil] at low
      omega
  | publish message =>
      refine ⟨untaken, ?_⟩
      rintro ⟨queue', pending, low, reads⟩
      obtain ⟨queue, here, rfl⟩ := Option.map_eq_some_iff.mp pending
      have same : Listener.position (h ++ [message]).length (queue ++ [message]) =
          Listener.position h.length queue := by simp [Listener.position]
      rw [same] at low reads
      refine unawaited ⟨queue, here, low, fun k from_ upto => ?_⟩
      have read := reads k from_ upto
      rwa [readableAt, List.getElem?_append_left (by omega)] at read
  | @take message rest pending readable_ =>
      refine ⟨passes pending, ?_⟩
      rintro ⟨queue, here, low, reads⟩
      obtain rfl := Option.some.inj here
      have length := (follows.suffix _ pending).length_le
      have next := follows.next pending
      simp only [Listener.position, List.length_cons] at low reads length next
      refine unawaited ⟨_, pending, ?_, fun k from_ upto => ?_⟩
      · simp only [Listener.position, List.length_cons]
        omega
      · simp only [Listener.position, List.length_cons] at from_
        obtain first | later := Nat.eq_or_lt_of_le from_
        · rw [readableAt, ← first, next]
          exact readable_
        · exact reads k (by omega) upto
  | fail pending =>
      refine ⟨passes pending, ?_⟩
      rintro ⟨queue, gone, -⟩
      cases gone

theorem history_grows (step : Step loads dumps s s') : s.history <+: s'.history := by
  have moves := moves_step step ""
  revert moves
  generalize (s.instances "").inbox = l
  generalize (s'.instances "").inbox = l'
  generalize s.history = h
  generalize s'.history = h'
  intro moves
  cases moves with
  | publish message => exact List.prefix_append h [message]
  | _ => exact List.prefix_refl h

/-- What is pending and readable is taken if nothing else happens. -/
theorem awaited_taken {queue : List Message} (sound : AllSound loads s) {n : Nat}
    (old : n < s.history.length) (pending : (s.instances i).inbox.pending = some queue)
    (low : Listener.position s.history.length queue ≤ n)
    (reads : ∀ k, Listener.position s.history.length queue ≤ k → k < n →
      readableAt loads s.history k = true) :
    ∃ s', ReflTransGen (Step loads dumps) s s' ∧ s'.history = s.history ∧
      n ∈ (s'.instances i).inbox.taken := by
  induction queue generalizing s with
  | nil =>
      simp only [Listener.position, List.length_nil] at low
      omega
  | cons message rest ih =>
      have follows := (sound i).follows
      have length := (follows.suffix _ pending).length_le
      have next := follows.next pending
      have listening : (s.instances i).stage = .listening :=
        (sound i).listening.mpr (by simp [pending])
      have step : Step loads dumps s (s.receive loads i message rest none "") :=
        .receive i none "" listening pending
      have received : (s.receive loads i message rest none "").instances i =
          ((s.instances i).take s.history.length message rest).handle loads i message none "" := by
        simp only [State.receive, State.modify, Function.update_self]
      have sound' := allSound_step step sound
      obtain first | later := Nat.eq_or_lt_of_le low
      · obtain ⟨kept, -⟩ := handle_cases loads i message none ""
          ((s.instances i).take s.history.length message rest)
        refine ⟨_, .single step, rfl, ?_⟩
        rw [received]
        have mem : n ∈ ((s.instances i).inbox.take s.history.length message rest).taken := by
          rw [← first]
          exact List.mem_append_right _ (List.mem_singleton_self _)
        obtain ⟨inbox, -⟩ | ⟨inbox, -⟩ := kept
        · rw [inbox]
          exact mem
        · rw [inbox]
          exact mem
      · have readable_ : readable loads message = true := by
          have read := reads _ (Nat.le_refl _) later
          rwa [readableAt, next] at read
        obtain ⟨inbox, -⟩ := handle_readable (i := i) readable_ ""
          ((s.instances i).take s.history.length message rest)
        simp only [Listener.position, List.length_cons] at later reads length
        obtain ⟨s', run, history, mem⟩ := @ih (s.receive loads i message rest none "") sound' old
          (by rw [received, inbox]; rfl)
          (by simp only [Listener.position]; change s.history.length - rest.length ≤ n; omega)
          (fun k from_ upto => by
            simp only [Listener.position] at from_
            change s.history.length - rest.length ≤ k at from_
            exact reads k (by omega) upto)
        exact ⟨s', .head step run, history, mem⟩

/-- Which messages can still reach an instance: those that it heeds, that are pending there, and
that no unreadable message comes before. All others that it has not heard are lost to it,
whatever happens. -/
theorem can_hear_iff (reachable : Reachable loads dumps s) (i : String) {n : Nat}
    (old : n < s.history.length) :
    (∃ s', ReflTransGen (Step loads dumps) s s' ∧
        n ∈ heard loads i s'.history (s'.instances i)) ↔
      n ∈ heard loads i s.history (s.instances i) ∨
        heedsAt loads i s.history n = true ∧ Awaited loads s.history (s.instances i).inbox n := by
  have sound := allSound reachable
  constructor
  · rintro ⟨s', run, mem⟩
    by_contra missed
    rw [not_or, not_and] at missed
    -- A missed message stays missed, and means the same to the instance.
    have stays : s.history <+: s'.history ∧ AllSound loads s' ∧
        (heedsAt loads i s.history n = true → n ∉ (s'.instances i).inbox.taken ∧
          ¬ Awaited loads s'.history (s'.instances i).inbox n) := by
      clear mem
      induction run with
      | refl =>
          refine ⟨List.prefix_refl _, sound, fun heeded => ⟨fun taken => missed.1 ?_, missed.2 heeded⟩⟩
          exact List.mem_filter.mpr ⟨taken, heeded⟩
      | tail _ step ih =>
          obtain ⟨grown, sound', lost⟩ := ih
          refine ⟨grown.trans (history_grows step), allSound_step step sound', fun heeded => ?_⟩
          obtain ⟨untaken, unawaited⟩ := lost heeded
          exact missed_moves (sound' i).follows (moves_step step i)
            (Nat.lt_of_lt_of_le old grown.length_le) untaken unawaited
    obtain ⟨grown, -, lost⟩ := stays
    obtain ⟨taken, heeded⟩ := List.mem_filter.mp mem
    obtain ⟨more, shape⟩ := grown
    rw [heedsAt, ← shape, List.getElem?_append_left old] at heeded
    exact (lost heeded).1 taken
  · rintro (mem | ⟨heeded, queue, pending, low, reads⟩)
    · exact ⟨s, .refl, mem⟩
    · obtain ⟨s', run, history, taken⟩ := awaited_taken sound old pending low reads
      refine ⟨s', run, List.mem_filter.mpr ⟨taken, ?_⟩⟩
      rw [history]
      exact heeded

theorem can_hear_iff_pendingOne :
    (∃ s', ReflTransGen (Step loadsOne fun _ => "null") pendingOne s' ∧
        0 ∈ heard loadsOne "a" s'.history (s'.instances "a")) ↔
      0 ∈ heard loadsOne "a" pendingOne.history (pendingOne.instances "a") ∨
        heedsAt loadsOne "a" pendingOne.history 0 = true ∧
          Awaited loadsOne pendingOne.history (pendingOne.instances "a").inbox 0 :=
  can_hear_iff pendingOne_reachable "a" (by decide)

end Hearing

end AcojWorker.ConfigSync
