import EpicMiner.EventLoop.Outcomes

/-!
Owns what `process_json_doc` reads off a document before it changes anything, and
all that it can then do. The shape of a document decides between a refusal, a job
and a reply; what a reply does depends on the call it matches.
-/

namespace EpicMiner.EventLoop

open EpicMiner.Library
open EpicMiner.Library.Program
open EpicMiner.Data

/-! ## Messages -/

/-- The first member with a name. -/
def firstMember (members : List (Bytes × Value)) (key : String) : Option Value :=
  (members.find? fun member => member.1 == ascii key).map Prod.snd

/-- What a document is to `process_json_doc`: a job with its parameters, a reply
to a call with its result or the text of its error, or an error itself. -/
inductive Message where
  | job (params : List (Bytes × Value))
  | reply (callId : UInt32) (outcome : Except Bytes (List (Bytes × Value)))
  | refused (err : Bytes)

namespace Message

def ofMembers (members : List (Bytes × Value)) : Message :=
  match firstMember members "method" with
  | some (.string method) =>
      if strcmpEqual method (ascii "job") then
        match firstMember members "params" with
        | some (.object params) => .job params
        | _ => .refused (ascii "PARSE error: Protocol error 2")
      else .refused (ascii "PARSE error: Unsupported server method.")
  | some _ => .refused (ascii "PARSE error: Protocol error 1")
  | none =>
      match firstMember members "id" with
      | some (.number (some callId)) =>
          match firstMember members "error" with
          | none | some .null =>
              match firstMember members "result" with
              | none => .refused (ascii "PARSE error: Protocol error 7")
              | some (.object result) => .reply callId (.ok result)
              | some _ => .refused (ascii "PARSE error: Protocol error 8")
          | some (.object error) =>
              match firstMember error "message" with
              | some (.string message) => .reply callId (.error (cString message))
              | _ => .refused (ascii "PARSE error: Protocol error 6")
          | some _ => .refused (ascii "PARSE error: Protocol error 5")
      | _ => .refused (ascii "PARSE error: Protocol error 3")

def process (config : Config) : Message → AppProgram Bool
  | .job params => processPoolJob config (.object params)
  | .reply callId (.ok fields) => processReply config callId (some (.object fields)) none
  | .reply callId (.error text) => processReply config callId none (some text)
  | .refused err => protocolError config err

end Message

theorem member_object (members : List (Bytes × Value)) (key : String) :
    member (.object members) key = pure (firstMember members key) :=
  rfl

theorem processJsonDoc_object (config : Config) (members : List (Bytes × Value)) :
    processJsonDoc config (.object members) =
      emit (.document (.object members)) >>= fun _ =>
        (Message.ofMembers members).process config := by
  unfold processJsonDoc Message.ofMembers
  simp only [member_object, pure_bind]
  congr 1
  funext _
  -- The cases follow the lookups of the source.
  rcases firstMember members "method" with _ | method
  · rcases firstMember members "id" with _ | id
    · rfl
    · rcases id with _ | _ | number | _ | _ | _ <;> try rfl
      rcases number with _ | callId
      · rfl
      · rcases firstMember members "error" with _ | failure
        · rcases firstMember members "result" with _ | result
          · rfl
          · cases result <;> rfl
        · rcases failure with _ | _ | _ | _ | _ | error <;> try rfl
          · rcases firstMember members "result" with _ | result
            · rfl
            · cases result <;> rfl
          · dsimp only
            rcases firstMember error "message" with _ | message
            · rfl
            · cases message <;> rfl
  · rcases method with _ | _ | _ | text | _ | _ <;> try rfl
    by_cases job : strcmpEqual text (ascii "job")
    · simp only [job, if_true]
      rcases firstMember members "params" with _ | params
      · rfl
      · cases params <;> rfl
    · simp only [job]
      rfl

/-! ## Processing -/

/-- The error argument of the handlers of a reply. -/
def errorText : Except Bytes (List (Bytes × Value)) → Option Bytes
  | .ok _ => none
  | .error text => some text

namespace App

/-- `find_call` frees the slot of the call it finds. -/
def freed (callId : UInt32) (app : App) : App :=
  app.setPool fun pool => { pool with calls := (pool.calls.findCall callId).2.2 }

def identified (id : Bytes) (app : App) : App :=
  app.setPool fun pool => { pool with poolMinerId := cString id }

/-- The counters after the reply to a share, its error text given if it has one. -/
def replied (target : UInt32) (error : Option Bytes) (rtt : UInt64) (minerId : UInt32)
    (app : App) : App :=
  match error with
  | none =>
      (app.record (.resultReply target none rtt minerId)).setExecutor fun executor =>
        { executor with
          poolCtr :=
            { executor.poolCtr with
              acceptedSharesCnt := executor.poolCtr.acceptedSharesCnt + 1
              totalDiff := executor.poolCtr.totalDiff + (difficulty target).toUInt64 } }
  | some text =>
      ((app.record (.resultReply target (some text) rtt minerId)).setExecutor fun executor =>
        { executor with
          poolCtr :=
            { executor.poolCtr with
              rejectedSharesCnt := executor.poolCtr.rejectedSharesCnt + 1 } }).record
        (.logError text)

end App

/-- All that `process_json_doc` can do with a message to its end. -/
inductive Processed (config : Config) (app : App) : Message → Bool → App → Prop
  | refused (err : Bytes) :
      Processed config app (.refused err) false (app.record (.logError (poolErrorText config err)))
  | job {params : List (Bytes × Value)} {accepted : Bool} {next : App} :
      JobOutcome config (.object params) app accepted next →
      Processed config app (.job params) accepted next
  | replyRefused {callId : UInt32} {outcome : Except Bytes (List (Bytes × Value))}
      (err : Bytes) : (app.pool.calls.findCall callId).1 ≠ .result →
      ((app.pool.calls.findCall callId).1 = .login → ∀ fields id job, outcome = .ok fields →
        firstMember fields "id" = some (.string id) → firstMember fields "job" ≠ some job) →
      Processed config app (.reply callId outcome) false
        ((app.freed callId).record (.logError (poolErrorText config err)))
  | loggedIn {callId : UInt32} {fields : List (Bytes × Value)} {id : Bytes} {job : Value}
      {accepted : Bool} {next : App} : (app.pool.calls.findCall callId).1 = .login →
      firstMember fields "id" = some (.string id) → firstMember fields "job" = some job →
      JobOutcome config job ((app.freed callId).identified id) accepted next →
      Processed config app (.reply callId (.ok fields)) accepted next
  | shareReplied {callId : UInt32} {outcome : Except Bytes (List (Bytes × Value))}
      (rtt : UInt64) : (app.pool.calls.findCall callId).1 = .result →
      (app.pool.calls.findCall callId).2.1.toNat < config.miners.length →
      Processed config app (.reply callId outcome) true
        ((app.freed callId).replied app.pool.myJob.target (errorText outcome) rtt
          (app.pool.calls.findCall callId).2.1)
  | kept {callId : UInt32} {fields : List (Bytes × Value)} :
      (app.pool.calls.findCall callId).1 = .keepalive →
      Processed config app (.reply callId (.ok fields)) true (app.freed callId)

/-- What the code relies on beyond the checks it makes: the job in the answer to a
login call is an object, and the call of a share names a miner. -/
def Message.Sound (config : Config) (app : App) : Message → Prop
  | .reply callId outcome =>
      match (app.pool.calls.findCall callId).1 with
      | .login => ∀ fields id job, outcome = .ok fields →
          firstMember fields "id" = some (.string id) → firstMember fields "job" = some job →
          job.isObject = true
      | .result => (app.pool.calls.findCall callId).2.1.toNat < config.miners.length
      | _ => True
  | _ => True

theorem checkParams_isObject {param : Value} {checked : Option JobParams}
    (found : checkParams param = .ok checked) : param.isObject = true := by
  cases param with
  | object members => rfl
  | _ => cases found

theorem checkParams_object (members : List (Bytes × Value)) :
    ∃ checked, checkParams (.object members) = .ok checked := by
  cases found : checkParams (.object members) with
  | ok checked => exact ⟨checked, rfl⟩
  | error failure =>
      simp only [checkParams, Value.getObjectMember, bind, Except.bind] at found
      split at found <;> cases found

/-- A job message ends in an outcome exactly if its parameters are an object. -/
theorem processPoolJob_outcome (config : Config) (param : Value) (app : App) :
    Ensures (processPoolJob config param) app (JobOutcome config param app)
      fun _ => param.isObject = false := by
  have outcome := processPoolJob_ensures config param app
  cases param with
  | object members =>
      obtain ⟨checked, found⟩ := checkParams_object members
      have ends : Ensures (processPoolJob config (.object members)) app (fun _ _ => True)
          fun _ => False := by
        unfold processPoolJob
        rw [ensures_bind, ensures_liftM, found]
        refine ⟨?_, by simp⟩
        rintro _ ⟨⟩
        cases checked with
        | none => exact trivial
        | some params =>
            change Ensures (settleJob config params (fillJob params app.pool.myJob.reset)) _ _ _
            rcases fillJob params app.pool.myJob.reset with ⟨rejection, job⟩
            cases rejection with
            | some err => exact trivial
            | none => exact trivial
      exact (outcome.and ends).imp (fun _ _ both => both.1) fun _ both => both.2.elim
  | _ => exact outcome.imp (fun _ _ ended => ended) fun _ _ => rfl

theorem onResultReply_replied (config : Config) (target : UInt32) (error : Option Bytes)
    (rtt : UInt64) (minerId : UInt32) (app : App) :
    Ensures (onResultReply config target error rtt minerId) app
      (fun _ next => minerId.toNat < config.miners.length ∧
        next = app.replied target error rtt minerId)
      fun _ => ¬ minerId.toNat < config.miners.length := by
  unfold onResultReply
  simp only [emit, ensures_bind, ensures_modify, ensures_ite, ensures_throw]
  refine ⟨fun unnamed => by omega, fun named => ?_⟩
  replace named : minerId.toNat < config.miners.length := by omega
  cases error with
  | none => exact ⟨named, rfl⟩
  | some text => exact ⟨named, rfl⟩

/-- The switch at the end of `process_json_doc`, behind `find_call`. -/
def replyTo (config : Config) (callId : UInt32) (outcome : Except Bytes (List (Bytes × Value)))
    (app : App) : CallTypes → AppProgram Bool
  | .invalid => protocolError config (ascii "Invalid call_id")
  | .login =>
      match outcome with
      | .ok fields => processPoolLogin config (some (.object fields)) none
      | .error text => processPoolLogin config none (some text)
  | .result => do
      let rtt : UInt64 :=
        if app.pool.pingCallId = callId ∧ app.pool.pingTimestamp < app.now then
          (app.now - app.pool.pingTimestamp).toNat.toUInt64
        else 0
      onResultReply config app.pool.myJob.target (errorText outcome) rtt
        (app.pool.calls.findCall callId).2.1
      return true
  | .keepalive => processPoolKeepalive config (errorText outcome)

theorem ensures_reply {config : Config} {callId : UInt32}
    {outcome : Except Bytes (List (Bytes × Value))} {app : App} {post : Bool → App → Prop}
    {fault : Fault → Prop} :
    Ensures ((Message.reply callId outcome).process config) app post fault ↔
      Ensures (replyTo config callId outcome app (app.pool.calls.findCall callId).1)
        (app.freed callId) post fault := by
  cases outcome <;>
  · unfold Message.process processReply replyTo
    rw [ensures_bind, ensures_get]
    dsimp only
    rw [ensures_bind, ensures_modify]
    cases (app.pool.calls.findCall callId).1 <;> exact Iff.rfl

theorem processPoolLogin_processed (config : Config) (fields : List (Bytes × Value)) (app : App) :
    Ensures (processPoolLogin config (some (.object fields)) none) app
      (fun accepted next =>
        (∃ err, accepted = false ∧ next = app.record (.logError (poolErrorText config err)) ∧
          ∀ id job, firstMember fields "id" = some (.string id) →
            firstMember fields "job" ≠ some job) ∨
        ∃ id job, firstMember fields "id" = some (.string id) ∧
          firstMember fields "job" = some job ∧
          JobOutcome config job (app.identified id) accepted next)
      fun _ => ∃ id job, firstMember fields "id" = some (.string id) ∧
        firstMember fields "job" = some job ∧ job.isObject = false := by
  unfold processPoolLogin
  simp only [member_object, pure_bind]
  split
  · rename_i id job foundId foundJob
    rw [ensures_bind, ensures_modify]
    refine (processPoolJob_outcome config job (app.identified id)).imp ?_ ?_
    · exact fun _ _ outcome => .inr ⟨id, job, foundId, foundJob, outcome⟩
    · exact fun _ unsound => ⟨id, job, foundId, foundJob, unsound⟩
  · rename_i malformed
    exact .inl ⟨_, rfl, rfl, fun id job foundId foundJob => malformed id job foundId foundJob⟩

/-- A message is processed to its end exactly if it is sound, with one of the
results above. -/
theorem Message.process_processed (config : Config) (message : Message) (app : App) :
    Ensures (message.process config) app
      (fun accepted next => message.Sound config app ∧ Processed config app message accepted next)
      fun _ => ¬ message.Sound config app := by
  cases message with
  | refused err => exact ⟨trivial, .refused err⟩
  | job params =>
      refine (processPoolJob_outcome config (.object params) app).imp ?_ ?_
      · exact fun _ _ outcome => ⟨trivial, .job outcome⟩
      · intro _ unsound
        cases unsound
  | reply callId outcome =>
      rw [ensures_reply]
      simp only [Message.Sound]
      cases type : (app.pool.calls.findCall callId).1 with
      | invalid => exact ⟨trivial, .replyRefused _ (by simp [type]) (by simp [type])⟩
      | keepalive =>
          cases outcome with
          | ok fields => exact ⟨trivial, .kept type⟩
          | error text => exact ⟨trivial, .replyRefused _ (by simp [type]) (by simp [type])⟩
      | result =>
          unfold replyTo
          rw [ensures_bind]
          apply (onResultReply_replied config _ _ _ _ _).mono
          rintro _ next ⟨named, rfl⟩
          exact ⟨named, .shareReplied _ type named⟩
      | login =>
          cases outcome with
          | error text => exact ⟨by simp, .replyRefused _ (by simp [type]) (by simp)⟩
          | ok fields =>
              refine (processPoolLogin_processed config fields (app.freed callId)).imp ?_ ?_
              · rintro accepted next (⟨err, rfl, rfl, absent⟩ | ⟨id, job, foundId, foundJob, outcome⟩)
                · refine ⟨?_, .replyRefused err (by simp [type]) ?_⟩
                  · rintro _ id job ⟨⟩ foundId foundJob
                    exact absurd foundJob (absent id job foundId)
                  · rintro - _ id job ⟨⟩ foundId
                    exact absent id job foundId
                · refine ⟨?_, .loggedIn type foundId foundJob outcome⟩
                  rintro _ otherId other ⟨⟩ - found
                  rw [foundJob] at found
                  cases found
                  cases outcome with
                  | refused checked => exact checkParams_isObject checked
                  | rejected _ _ _ checked _ => exact checkParams_isObject checked
                  | accepted _ _ checked _ => exact checkParams_isObject checked
              · rintro failure ⟨id, job, foundId, foundJob, unsound⟩ sound
                rw [sound fields id job rfl foundId foundJob] at unsound
                cases unsound

end EpicMiner.EventLoop
