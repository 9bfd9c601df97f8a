import EpicMiner.EventLoop.Dispatch
import EpicMiner.EventLoop.Lifecycle

/-!
Owns the typed accesses of the document handling. Every lookup and every getter
is behind a check, but for the job in the answer to a login call: a notification
checks its parameters before `process_pool_job`, the login reply does not.
-/

namespace EpicMiner.EventLoop

open EpicMiner.Library
open EpicMiner.Library.Program
open EpicMiner.Data

/-- `program` makes no access that its value does not allow, and ends in true or
in a protocol error. -/
def EndsProperly (config : Config) (program : AppProgram Bool) (app : App) : Prop :=
  Ensures program app
    (fun accepted next => accepted = false →
      ∃ err older, next.log = .logError (poolErrorText config err) :: older)
    fun _ => False

theorem JobOutcome.reported {config : Config} {param : Value} {app next : App}
    (outcome : JobOutcome config param app false next) :
    ∃ err older, next.log = .logError (poolErrorText config err) :: older := by
  cases outcome with
  | refused _ => exact ⟨_, _, rfl⟩
  | rejected _ err _ _ _ => exact ⟨err, _, rfl⟩

/-- What is not accepted is reported last. -/
theorem Processed.reported {config : Config} {app next : App} {message : Message}
    (processed : Processed config app message false next) :
    ∃ err older, next.log = .logError (poolErrorText config err) :: older := by
  cases processed with
  | refused err => exact ⟨err, _, rfl⟩
  | job outcome => exact outcome.reported
  | replyRefused err _ _ => exact ⟨err, _, rfl⟩
  | loggedIn _ _ _ outcome => exact outcome.reported

/-- Any object, met with any calls outstanding, is handled properly exactly if it
is not the answer to a login call with a job that is no object, and the call of a
share that it answers names a miner. -/
theorem document_ends_properly_iff (config : Config) (members : List (Bytes × Value))
    (app : App) :
    EndsProperly config (processJsonDoc config (.object members)) app ↔
      (Message.ofMembers members).Sound config app := by
  have sound : (Message.ofMembers members).Sound config app ↔
      (Message.ofMembers members).Sound config (app.record (.document (.object members))) := by
    cases Message.ofMembers members <;> exact Iff.rfl
  have processed := (Message.ofMembers members).process_processed config
    (app.record (.document (.object members)))
  unfold EndsProperly
  rw [processJsonDoc_object, ensures_bind_of_run rfl, sound]
  constructor
  · intro proper
    obtain ⟨accepted, next, ended, -⟩ := proper.exists_run
    exact (processed.of_run ended).1
  · intro holds
    refine processed.imp ?_ fun _ unsound => unsound holds
    rintro accepted next ⟨-, outcome⟩ rfl
    exact outcome.reported

/-! ## A sample document -/

def numberJobText : Bytes :=
  ascii "\x7b\"id\":0,\"result\":\x7b\"id\":\"m\",\"job\":5\x7d\x7d"

def numberJobMembers : List (Bytes × Value) :=
  [(ascii "id", .number (some 0)),
    (ascii "result", .object
      [(ascii "id", .string (ascii "m")), (ascii "job", .number (some 5))])]

/-- A plain connection to a server that answers the login call with a number in
place of the job. -/
def Env.numbering : Env Unit :=
  .plain (.ofRun (.ofTexts [(numberJobText, .object numberJobMembers)]) ethashEpoch)

/-- The members of the number are looked up, and RapidJSON asserts. -/
theorem number_job_not_proper :
    ∃ sys, (machine .numbering).Reachable sys ∧
      ¬ EndsProperly Env.numbering.config
        (processJsonDoc Env.numbering.config (.object numberJobMembers)) sys.app ∧
      failureOf .numbering sys ((Event.read (numberJobText ++ [10])).at 20030) =
        some .typeError := by
  have executed := Machine.execute_reachable Sys.start_initial (step .numbering) loginSession
    (fun sys =>
      ((processJsonDoc Env.numbering.config (.object numberJobMembers)).run sys.app).toOption.isSome
          = false ∧
        failureOf .numbering sys ((Event.read (numberJobText ++ [10])).at 20030) =
          some .typeError) (by decide +kernel)
  generalize Machine.execute _ _ _ = state at executed
  obtain ⟨reachable, fails, aborts⟩ := executed
  refine ⟨state, reachable, fun proper => ?_, aborts⟩
  obtain ⟨accepted, next, ended, -⟩ := proper.exists_run
  rw [ended] at fails
  cases fails

end EpicMiner.EventLoop
