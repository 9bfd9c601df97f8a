import Mathlib.Data.List.Infix
import EpicMiner.EventLoop.Matching

/-!
Owns the identity under which the pool submits. The id is stored when a login call
is answered and outlives the connection; a job notification makes the pool mine
whether or not the login call of the connection has been answered.
-/

namespace EpicMiner.EventLoop

open EpicMiner.Library
open EpicMiner.Library.Program
open EpicMiner.Data

variable {Engine : Type}

/-! ## Ids of the server -/

/-- The id that a document gives as the successful answer to an outstanding login
call. -/
def loginAnswer (doc : Value) (older : List Effect) : Option Bytes :=
  match doc with
  | .object members =>
      match Message.ofMembers members with
      | .reply callId (.ok fields) =>
          match ((callDesk older).answer callId).map Prod.fst, firstMember fields "id",
            firstMember fields "job" with
          | some .login, some (.string id), some _ => some id
          | _, _, _ => none
      | _ => none
  | _ => none

/-- The id that the login call of the connection was answered with. -/
def issuedId : List Effect → Option Bytes
  | [] => none
  | .dial _ :: _ => none
  | .document doc :: older => (loginAnswer doc older).or (issuedId older)
  | _ :: older => issuedId older

/-- Whenever a job is accepted, the login call of the connection has been answered. -/
def JobsAfterLogin (log : List Effect) : Prop :=
  ∀ older, .hasJob :: older <:+ log → (issuedId older).isSome = true

/-- No login call is answered with an id that has a NUL character. -/
def PlainIds (log : List Effect) : Prop :=
  ∀ older id, older <:+ log → issuedId older = some id → 0 ∉ id

def Effect.isIdentifying : Effect → Bool
  | .dial _ => true
  | .document _ => true
  | _ => false

theorem JobsAfterLogin.tail {effect : Effect} {log : List Effect}
    (ordered : JobsAfterLogin (effect :: log)) : JobsAfterLogin log :=
  fun older suffix => ordered older (suffix.trans (List.suffix_cons effect log))

theorem JobsAfterLogin.of_append {newer older : List Effect}
    (ordered : JobsAfterLogin (newer ++ older)) : JobsAfterLogin older :=
  fun earlier suffix => ordered earlier (suffix.trans (List.suffix_append newer older))

theorem issuedId_append {newer older : List Effect}
    (silent : ∀ effect ∈ newer, effect.isIdentifying = false) :
    issuedId (newer ++ older) = issuedId older := by
  refine read_append (fun effect older isSilent => ?_) silent
  cases effect <;> first | rfl | cases isSilent

/-- A job that is accepted in time has an id to be submitted under. -/
theorem JobsAfterLogin.issued {newer older : List Effect}
    (ordered : JobsAfterLogin (newer ++ older))
    (silent : ∀ effect ∈ newer, effect.isIdentifying = false) (accepted : .hasJob ∈ newer) :
    (issuedId older).isSome = true := by
  obtain ⟨after, before, rfl⟩ := List.append_of_mem accepted
  have issued := ordered (before ++ older) ⟨after, by simp⟩
  rwa [issuedId_append fun effect member => silent effect (by simp [member])] at issued

/-! ## Inside a callback -/

theorem loginAnswer_reply {members : List (Bytes × Value)} {callId : UInt32}
    {outcome : Except Bytes (List (Bytes × Value))} {older : List Effect} {id : Bytes}
    (reply : Message.ofMembers members = .reply callId outcome)
    (answer : loginAnswer (.object members) older = some id) :
    ∃ fields job, outcome = .ok fields ∧
      ((callDesk older).answer callId).map Prod.fst = some .login ∧
      firstMember fields "id" = some (.string id) ∧ firstMember fields "job" = some job := by
  simp only [loginAnswer, reply] at answer
  cases outcome with
  | error text => cases answer
  | ok fields =>
      dsimp only at answer
      split at answer
      · rename_i isLogin foundId foundJob
        cases answer
        exact ⟨fields, _, rfl, isLogin, foundId, foundJob⟩
      · cases answer

/-- The call map and the desk of the log agree on which calls are login calls. -/
theorem Traced.answer_login_iff {app : App} (traced : Traced app) (callId : UInt32) :
    ((callDesk app.log).answer callId).map Prod.fst = some .login ↔
      (app.pool.calls.findCall callId).1 = .login := by
  obtain ⟨-, -, outcome⟩ := app.pool.calls.findCall_take callId
  rw [traced.slots] at outcome
  unfold Desk.answer
  rcases outcome with ⟨none, invalid⟩ | ⟨taken, -⟩
  · rw [none, invalid]
    decide
  · rw [taken]
    simp

theorem loginAnswer_of_other {members : List (Bytes × Value)} {older : List Effect}
    (other : ∀ callId outcome, Message.ofMembers members ≠ .reply callId outcome) :
    loginAnswer (.object members) older = none := by
  cases message : Message.ofMembers members with
  | reply callId outcome => exact absurd message (other callId outcome)
  | _ => simp only [loginAnswer, message]

/-- A reply answers no login call if the call map has another call under its id, or if
it lacks the id of the miner or the job. -/
theorem Traced.loginAnswer_eq_none {app : App} (traced : Traced app)
    {members : List (Bytes × Value)} {callId : UInt32}
    {outcome : Except Bytes (List (Bytes × Value))}
    (reply : Message.ofMembers members = .reply callId outcome)
    (malformed : (app.pool.calls.findCall callId).1 = .login → ∀ fields id job,
      outcome = .ok fields → firstMember fields "id" = some (.string id) →
      firstMember fields "job" ≠ some job) :
    loginAnswer (.object members) app.log = none := by
  cases answer : loginAnswer (.object members) app.log with
  | none => rfl
  | some id =>
      obtain ⟨fields, job, ok, login, foundId, foundJob⟩ := loginAnswer_reply reply answer
      have isLogin := (traced.answer_login_iff callId).mp login
      exact absurd foundJob (malformed isLogin fields id job ok foundId)

/-- The id and the state of the pool follow what was logged: the latest answer to a
login call, and whether a job was accepted. -/
structure Identifies (answer : Option Bytes) (newer : List Effect) (app next : App) : Prop where
  silent : ∀ effect ∈ newer, effect.isIdentifying = false
  minerId : next.pool.poolMinerId = (answer.map cString).getD app.pool.poolMinerId
  state : next.pool.state = .hasJob → app.pool.state = .hasJob ∨ .hasJob ∈ newer

theorem JobOutcome.identifies {config : Config} {param : Value} {app next : App} {accepted : Bool}
    (outcome : JobOutcome config param app accepted next) :
    ∃ newer, next.log = newer ++ app.log ∧ Identifies none newer app next := by
  cases outcome with
  | refused _ => exact ⟨[_], rfl, by simp [Effect.isIdentifying], rfl, .inl⟩
  | rejected _ _ _ _ _ => exact ⟨[_, _], rfl, by simp [Effect.isIdentifying], rfl, .inl⟩
  | accepted _ _ _ _ =>
      exact ⟨[_, _, _, _, _, _, _], rfl, by simp [Effect.isIdentifying], rfl, fun _ => .inr (by simp)⟩

theorem Processed.identifies {config : Config} {members : List (Bytes × Value)} {app next : App}
    {accepted : Bool} (traced : Traced app)
    (processed : Processed config (app.record (.document (.object members)))
      (Message.ofMembers members) accepted next) :
    ∃ newer, next.log = newer ++ .document (.object members) :: app.log ∧
      Identifies (loginAnswer (.object members) app.log) newer app next := by
  generalize message : Message.ofMembers members = shape at processed
  cases processed with
  | refused err =>
      rw [loginAnswer_of_other (by rw [message]; exact nofun)]
      exact ⟨[_], rfl, by simp [Effect.isIdentifying], rfl, .inl⟩
  | job outcome =>
      rw [loginAnswer_of_other (by rw [message]; exact nofun)]
      obtain ⟨newer, log, identifies⟩ := outcome.identifies
      exact ⟨newer, log, identifies.silent, identifies.minerId, identifies.state⟩
  | @replyRefused callId outcome err _ malformed =>
      rw [traced.loginAnswer_eq_none message malformed]
      exact ⟨[_], rfl, by simp [Effect.isIdentifying], rfl, .inl⟩
  | @loggedIn callId fields id job _ _ login foundId foundJob outcome =>
      have answer : loginAnswer (.object members) app.log = some id := by
        have isLogin := (traced.answer_login_iff callId).mpr login
        simp only [loginAnswer, message, isLogin, foundId, foundJob]
      rw [answer]
      obtain ⟨newer, log, identifies⟩ := outcome.identifies
      exact ⟨newer, log, identifies.silent, identifies.minerId, identifies.state⟩
  | @kept callId _ keepalive =>
      have other : (app.pool.calls.findCall callId).1 = .keepalive := keepalive
      rw [traced.loginAnswer_eq_none message (by rw [other]; exact nofun)]
      exact ⟨[], rfl, by simp, rfl, .inl⟩
  | @shareReplied callId outcome rtt isResult _ =>
      have other : (app.pool.calls.findCall callId).1 = .result := isResult
      rw [traced.loginAnswer_eq_none message (by rw [other]; exact nofun)]
      cases error : errorText outcome with
      | none => exact ⟨[_], rfl, by simp [Effect.isIdentifying], rfl, .inl⟩
      | some text => exact ⟨[_, _], rfl, by simp [Effect.isIdentifying], rfl, .inl⟩

/-- The pool has the id of the connection, once there is one; a pool with a job has
one. -/
structure Named (app : App) : Prop where
  same : ∀ id, issuedId app.log = some id → app.pool.poolMinerId = cString id
  issued : JobsAfterLogin app.log → app.pool.state = .hasJob →
    (issuedId app.log).isSome = true

namespace Named

variable {app next : App}

theorem quiet (named : Named app) (newer : List Effect) (log : next.log = newer ++ app.log)
    (silent : ∀ effect ∈ newer, effect.isIdentifying = false)
    (minerId : next.pool.poolMinerId = app.pool.poolMinerId)
    (state : next.pool.state = .hasJob → app.pool.state = .hasJob) : Named next := by
  have issued : issuedId next.log = issuedId app.log := by
    rw [log]
    exact issuedId_append silent
  constructor
  · rw [issued, minerId]
    exact named.same
  · rw [issued, log]
    exact fun ordered hasJob => named.issued ordered.of_append (state hasJob)

theorem documented (named : Named app) {doc : Value} {newer : List Effect}
    (log : next.log = newer ++ .document doc :: app.log)
    (identifies : Identifies (loginAnswer doc app.log) newer app next) : Named next := by
  have issued : issuedId next.log = (loginAnswer doc app.log).or (issuedId app.log) := by
    rw [log, issuedId_append identifies.silent]
    rfl
  obtain ⟨silent, minerId, state⟩ := identifies
  constructor
  · intro id found
    rw [issued] at found
    rw [minerId]
    cases answer : loginAnswer doc app.log with
    | none =>
        rw [answer, Option.none_or] at found
        exact named.same id found
    | some other =>
        rw [answer, Option.some_or] at found
        cases found
        rfl
  · intro ordered hasJob
    rw [log] at ordered
    rcases state hasJob with before | accepted
    · have earlier := named.issued ordered.of_append.tail before
      rw [issued, Option.isSome_or, earlier, Bool.or_true]
    · have inTime := ordered.issued silent accepted
      rwa [issued]

end Named

/-! ## Runs -/

def naming : Behaviour Fault (Sys Engine) :=
  .keeping (fun sys => Traced sys.app ∧ Named sys.app) fun _ => False

theorem naming_quiet {sys next : Sys Engine} (traces : tracing.Change sys next)
    (newer : List Effect) (log : next.app.log = newer ++ sys.app.log)
    (silent : ∀ effect ∈ newer, effect.isIdentifying = false)
    (minerId : next.app.pool.poolMinerId = sys.app.pool.poolMinerId)
    (state : next.app.pool.state = .hasJob → sys.app.pool.state = .hasJob) :
    naming.Change sys next :=
  fun ⟨traced, named⟩ => ⟨traces traced, named.quiet newer log silent minerId state⟩

/-- A connection that is only attempted has no id. -/
theorem Named.dialled {app : App} {reconnect : Bool} {older : List Effect}
    (log : app.log = .dial reconnect :: older) (state : app.pool.state = .connecting) :
    Named app := by
  constructor
  · rw [log]
    exact nofun
  · rw [state]
    exact nofun

theorem Effect.isIdentifying_of_routine {effect : Effect} (routine : effect.isRoutine = true) :
    effect.isIdentifying = false := by
  cases effect <;> first | rfl | cases routine

theorem naming_turn (env : Env Engine) : Turn env naming := by
  have traces := tracing_turn env
  apply traces.beyond
  case fault => exact fun _ _ _ => id
  case routine =>
    intro sys next newer traces routine
    apply naming_quiet traces newer routine.log _ routine.minerId routine.state
    exact fun effect member => Effect.isIdentifying_of_routine (routine.effects effect member)
  case document =>
    intro sys members
    apply Ends.processed fun _ _ => id
    intro accepted app processed ⟨traced, named⟩
    obtain ⟨newer, log, identifies⟩ := processed.identifies traced
    exact ⟨traced.processed processed, named.documented log identifies⟩
  case dialled => exact fun sys idle holds => ⟨traces.dialled sys idle holds.1, .dialled rfl rfl⟩
  case socketClosed =>
    intro sys due
    apply naming_quiet (traces.socketClosed sys due) [_, _, _] rfl _ rfl nofun
    simp [Effect.isIdentifying]

theorem reachable_named {env : Env Engine} {sys : Sys Engine}
    (reachable : (machine env).Reachable sys) : Untouched sys ∨ Named sys.app := by
  rcases (naming_turn env).sinceDial reachable with untouched | ⟨before, untouched, change⟩
  · exact .inl untouched
  · exact .inr (change ⟨untouched.traced, Named.dialled rfl rfl⟩).2

/-- The pool has the id that the login call of the connection was answered with, and
the line written for any share is the one with this id. -/
structure Identified (env : Env Engine) (sys : Sys Engine) (id : Bytes) : Prop where
  issued : issuedId sys.app.log = some id
  held : sys.app.pool.poolMinerId = id
  written : ∀ res input, input.event = .foundResult res →
    (callback env input.event).run (sys.answering input) =
      (sendLine env (submitLine id res
        ((sys.answering input).registration .result res.minerId).2.1)).run
          ((sys.answering input).shareMade res)

/-- In every run in which jobs are accepted only after the login call of the
connection has been answered, a pool with a job submits under the id of that
answer. -/
theorem miner_identified (env : Env Engine) (sys : Sys Engine)
    (reachable : (machine env).Reachable sys) (ordered : JobsAfterLogin sys.app.log)
    (plain : PlainIds sys.app.log) (hasJob : sys.app.pool.state = .hasJob) :
    ∃ id, Identified env sys id := by
  rcases reachable_named reachable with untouched | named
  · rw [untouched.idle] at hasJob
    cases hasJob
  · obtain ⟨id, issued⟩ := Option.isSome_iff_exists.mp (named.issued ordered hasJob)
    have held : sys.app.pool.poolMinerId = id :=
      (named.same id issued).trans
        (cString_of_not_mem (plain sys.app.log id List.suffix_rfl issued))
    refine ⟨id, issued, held, ?_⟩
    intro res input found
    rw [found, ← held]
    show (doSendResult env res).run (sys.answering input) = _
    have isJob : ¬ (sys.answering input).app.pool.state ≠ .hasJob := not_not.mpr hasJob
    unfold doSendResult doSendResultThrough
    rw [StateT.run_bind, StateT.run_get, pure_bind, if_neg isJob]
    rfl

/-! ## Sample runs -/

def Effect.isHasJob : Effect → Bool
  | .hasJob => true
  | _ => false

theorem Effect.eq_hasJob {effect : Effect} (isHasJob : effect.isHasJob = true) :
    effect = .hasJob := by
  cases effect <;> first | rfl | cases isHasJob

instance (log : List Effect) : Decidable (JobsAfterLogin log) :=
  decidable_of_iff
    (∀ suffix ∈ log.tails, suffix.head?.any Effect.isHasJob = true →
      (issuedId suffix.tail).isSome = true) <| by
    constructor
    · intro every older suffix
      exact every _ ((List.mem_tails _ _).mpr suffix) rfl
    · rintro ordered (_ | ⟨effect, older⟩) member first
      · cases first
      · cases Effect.eq_hasJob first
        exact ordered older ((List.mem_tails _ _).mp member)

instance (log : List Effect) : Decidable (PlainIds log) :=
  decidable_of_iff (∀ suffix ∈ log.tails, ∀ id ∈ issuedId suffix, 0 ∉ id) <| by
    constructor
    · intro every older id suffix issued
      exact every older ((List.mem_tails _ _).mpr suffix) id issued
    · intro plain suffix member id issued
      exact plain suffix id ((List.mem_tails _ _).mp member) issued

/-- The login call is answered with the id m and the sample job. -/
def welcomeDoc : Value :=
  .object
    [(ascii "id", .number (some 0)),
      (ascii "result",
        .object [(ascii "id", .string (ascii "m")), (ascii "job", JobMessage.sample.params)])]

def welcomeText : Bytes :=
  ascii "\x7b\"id\":0,\"result\":\x7b\"id\":\"m\",\"job\":" ++ JobMessage.sample.paramsText ++
    ascii "\x7d\x7d"

def Env.welcoming : Env Unit :=
  .plain (.ofRun (.ofTexts [(welcomeText, welcomeDoc)]) ethashEpoch)

def welcomedSession : List Input :=
  loginSession ++ [(Event.read (welcomeText ++ [10])).at 20030]

theorem miner_identified_sample :
    ∃ sys, (machine .welcoming).Reachable sys ∧ issuedId sys.app.log = some (ascii "m") ∧
      ∃ id, Identified .welcoming sys id := by
  have executed := Machine.execute_reachable Sys.start_initial (step .welcoming) welcomedSession
    (fun sys => issuedId sys.app.log = some (ascii "m") ∧ JobsAfterLogin sys.app.log ∧
      PlainIds sys.app.log ∧ sys.app.pool.state = .hasJob) (by decide +kernel)
  generalize Machine.execute _ _ _ = state at executed
  obtain ⟨reachable, issued, ordered, plain, hasJob⟩ := executed
  exact ⟨state, reachable, issued,
    miner_identified .welcoming state reachable ordered plain hasJob⟩

/-- A job notification is accepted before the login call is answered, and the pool
would submit a share under an id that the server has not issued. -/
theorem early_job_not_identified :
    ∃ sys, (machine .sample).Reachable sys ∧ sys.app.pool.state = .hasJob ∧
      issuedId sys.app.log = none ∧ sys.app.pool.poolMinerId = [] ∧
      ¬ ∃ id, Identified .sample sys id := by
  have executed := Machine.execute_reachable Sys.start_initial (step .sample) sampleSession
    (fun sys => sys.app.pool.state = .hasJob ∧ issuedId sys.app.log = none ∧
      sys.app.pool.poolMinerId = []) (by decide +kernel)
  generalize Machine.execute _ _ _ = state at executed
  obtain ⟨reachable, hasJob, none, empty⟩ := executed
  refine ⟨state, reachable, hasJob, none, empty, ?_⟩
  rintro ⟨id, identified⟩
  have issued := identified.issued
  rw [none] at issued
  cases issued

end EpicMiner.EventLoop
