import EpicMiner.EventLoop.Documents

/-!
Owns what handling a document may do, stated once: note something, then perhaps
have a job rejected after its reset, or a job accepted and published. No fault
of a document is an assert.
-/

namespace EpicMiner.EventLoop

open EpicMiner.Library
open EpicMiner.Library.Program
open EpicMiner.Data

def DocumentFault (failure : Fault) : Prop :=
  failure = .typeError ∨ failure = .nullPointer ∨ failure = .outOfRange

/-- Entries that no later statement about jobs or shared memory looks at. -/
def Effect.IsNote : Effect → Prop
  | .logError _ => True
  | .resultReply _ _ _ _ => True
  | _ => False

/-! ## Outcomes of a job message -/

namespace App

/-- A job message was rejected after the reset of `my_job`. -/
def jobRejected (config : Config) (err : Bytes) (job : PoolJob) (app : App) : App :=
  { app with
    pool := { app.pool with myJob := job }
    log := .logError (poolErrorText config err) :: .shared .storeNonce :: app.log }

/-- A job message was accepted and its job published. -/
def jobAccepted (config : Config) (job : PoolJob) (app : App) : App :=
  let minerJob := MinerJob.published config.getEpochNumber job
  { app with
    pool := { app.pool with state := .hasJob, myJob := job }
    executor :=
      { poolCtr := app.executor.poolCtr.date app.nowSeconds
        published := app.executor.published.publish minerJob }
    log :=
      .shared (.publish minerJob) :: .shared (.adjustToBlock job.height) ::
        .shared (.adjustToSeed job.randomxSeed) :: .newJob job :: .shared .storeNonce ::
          .hasJob :: .shared .storeNonce :: app.log }

end App

/-- All that `process_pool_job` can do. -/
inductive JobOutcome (config : Config) (param : Value) (app : App) : Bool → App → Prop
  | refused : checkParams param = .ok none →
      JobOutcome config param app false
        (app.record (.logError (poolErrorText config (ascii "PARSE error: Job error 1"))))
  | rejected (params : JobParams) (err : Bytes) (job : PoolJob) :
      checkParams param = .ok (some params) →
      fillJob params app.pool.myJob.reset = (some err, job) →
      JobOutcome config param app false (app.jobRejected config err job)
  | accepted (params : JobParams) (job : PoolJob) :
      checkParams param = .ok (some params) →
      fillJob params app.pool.myJob.reset = (none, job) →
      JobOutcome config param app true
        (app.jobAccepted config { finishJob params job with nonce := 0 })

theorem getObjectMember_error {value : Value} {key : Bytes} {failure : Fault}
    (failed : value.getObjectMember key = .error failure) : failure = .typeError := by
  cases value <;> cases failed <;> rfl

theorem checkParams_error {param : Value} {failure : Fault}
    (failed : checkParams param = .error failure) : failure = .typeError := by
  cases param with
  | object members =>
      simp only [checkParams, Value.getObjectMember, bind, Except.bind] at failed
      split at failed <;> cases failed
  | _ => cases failed; rfl

theorem processPoolJob_ensures (config : Config) (param : Value) (app : App) :
    Ensures (processPoolJob config param) app (JobOutcome config param app) DocumentFault := by
  unfold processPoolJob
  rw [ensures_bind, ensures_liftM]
  refine ⟨fun checked found => ?_, fun failure failed => .inl (checkParams_error failed)⟩
  cases checked with
  | none => exact .refused found
  | some params =>
      change Ensures (settleJob config params (fillJob params app.pool.myJob.reset)) _ _ _
      rcases outcome : fillJob params app.pool.myJob.reset with ⟨rejection, job⟩
      cases rejection with
      | some err => exact .rejected params err job found outcome
      | none => exact .accepted params job found outcome

/-! ## Outcomes of a document -/

/-- Notes are taken; job, pool state and published jobs stay as they are. -/
structure Noted (app next : App) : Prop where
  log : ∃ notes, next.log = notes ++ app.log ∧ ∀ effect ∈ notes, effect.IsNote
  state : next.pool.state = app.pool.state
  myJob : next.pool.myJob = app.pool.myJob
  published : next.executor.published = app.executor.published

namespace Noted

theorem of_log {app next : App} (log : next.log = app.log)
    (state : next.pool.state = app.pool.state) (myJob : next.pool.myJob = app.pool.myJob)
    (published : next.executor.published = app.executor.published) : Noted app next :=
  ⟨⟨[], by simpa using log, by simp⟩, state, myJob, published⟩

theorem refl (app : App) : Noted app app :=
  .of_log rfl rfl rfl rfl

theorem trans {first second third : App} (before : Noted first second)
    (after : Noted second third) : Noted first third := by
  obtain ⟨earlier, log, areNotes⟩ := before.log
  obtain ⟨later, log', areNotes'⟩ := after.log
  refine ⟨⟨later ++ earlier, by rw [log', log, List.append_assoc], ?_⟩,
    after.state.trans before.state, after.myJob.trans before.myJob,
    after.published.trans before.published⟩
  intro effect member
  exact (List.mem_append.mp member).elim (areNotes' effect) (areNotes effect)

theorem record (app : App) (effect : Effect) (isNote : effect.IsNote) :
    Noted app (app.record effect) :=
  ⟨⟨[effect], rfl, by simpa using isNote⟩, rfl, rfl, rfl⟩

end Noted

/-- What handling a document may do after the document was logged. -/
inductive Handled (config : Config) (app : App) : App → Prop
  | noted {next : App} : Noted app next → Handled config app next
  | rejected {before : App} (err : Bytes) (job : PoolJob) :
      Noted app before → Handled config app (before.jobRejected config err job)
  | accepted {before : App} (job : PoolJob) :
      Noted app before → Handled config app (before.jobAccepted config job)

theorem Handled.after {config : Config} {app before next : App} (noted : Noted app before)
    (handled : Handled config before next) : Handled config app next := by
  cases handled with
  | noted also => exact .noted (noted.trans also)
  | rejected err job also => exact .rejected err job (noted.trans also)
  | accepted job also => exact .accepted job (noted.trans also)

theorem JobOutcome.handled {config : Config} {param : Value} {app next : App} {accepted : Bool}
    (outcome : JobOutcome config param app accepted next) : Handled config app next := by
  cases outcome with
  | refused _ => exact .noted (.record app _ trivial)
  | rejected _ err job _ _ => exact .rejected err job (.refl app)
  | accepted _ job _ _ => exact .accepted _ (.refl app)

def Effect.isHandling : Effect → Bool
  | .logError _ => true
  | .resultReply _ _ _ _ => true
  | .hasJob => true
  | .newJob _ => true
  | .shared _ => true
  | _ => false

theorem Effect.IsNote.isHandling {effect : Effect} (isNote : effect.IsNote) :
    effect.isHandling = true := by
  cases effect <;> first | rfl | exact isNote.elim

theorem Handled.log {config : Config} {app next : App} (handled : Handled config app next) :
    ∃ newer, next.log = newer ++ app.log ∧ ∀ effect ∈ newer, effect.isHandling = true := by
  have extend : ∀ (more : List Effect) {before : App}, Noted app before →
      (∀ effect ∈ more, effect.isHandling = true) →
      ∃ newer, more ++ before.log = newer ++ app.log ∧
        ∀ effect ∈ newer, effect.isHandling = true := by
    intro more before noted handlings
    obtain ⟨notes, log, areNotes⟩ := noted.log
    refine ⟨more ++ notes, by rw [log, List.append_assoc], ?_⟩
    intro effect member
    exact (List.mem_append.mp member).elim (handlings effect)
      fun member => (areNotes effect member).isHandling
  cases handled with
  | noted noted => simpa using extend [] noted (by simp)
  | rejected err job noted => exact extend [_, _] noted (by simp [Effect.isHandling])
  | accepted job noted =>
      exact extend [_, _, _, _, _, _, _] noted (by simp [Effect.isHandling])

abbrev Handles {α : Type} (config : Config) (program : AppProgram α) (app : App) : Prop :=
  Ensures program app (fun _ next => Handled config app next) DocumentFault

theorem Handles.after {α : Type} {config : Config} {program : AppProgram α} {app before : App}
    (handles : Handles config program before) (noted : Noted app before) :
    Ensures program before (fun _ next => Handled config app next) DocumentFault :=
  handles.mono fun _ _ handled => handled.after noted

theorem handles_member {α : Type} {config : Config} {value : Value} {key : String}
    {rest : Option Value → AppProgram α} {app : App}
    (handles : ∀ found, Handles config (rest found) app) :
    Handles config (member value key >>= rest) app := by
  unfold Handles member
  rw [ensures_bind, ensures_liftM]
  exact ⟨fun found _ => handles found, fun failure failed => .inl (getObjectMember_error failed)⟩

theorem protocolError_handles (config : Config) (err : Bytes) (app : App) :
    Handles config (protocolError config err) app :=
  .noted (.record app _ trivial)

theorem processPoolJob_handles (config : Config) (param : Value) (app : App) :
    Handles config (processPoolJob config param) app :=
  (processPoolJob_ensures config param app).mono fun _ _ outcome => outcome.handled

theorem onResultReply_handles (config : Config) (target : UInt32) (error : Option Bytes)
    (rtt : UInt64) (minerId : UInt32) (app : App) :
    Handles config (onResultReply config target error rtt minerId) app := by
  have replied := Noted.record app (.resultReply target error rtt minerId) trivial
  unfold onResultReply Handles
  simp only [emit, ensures_bind, ensures_modify, ensures_ite, ensures_throw]
  refine ⟨fun _ => .inr (.inr rfl), fun _ => ?_⟩
  cases error with
  | none => exact .noted (replied.trans (.of_log rfl rfl rfl rfl))
  | some text =>
      refine .noted ⟨⟨[.logError text, .resultReply target (some text) rtt minerId], rfl, ?_⟩,
        rfl, rfl, rfl⟩
      simp [Effect.IsNote]

theorem processPoolLogin_handles (config : Config) (value : Option Value)
    (errMsg : Option Bytes) (app : App) :
    Handles config (processPoolLogin config value errMsg) app := by
  unfold processPoolLogin
  split
  · exact protocolError_handles config _ app
  · split
    · exact .inr (.inl rfl)
    · refine handles_member fun id => handles_member fun job => ?_
      split
      · exact (processPoolJob_handles config _ _).after (.of_log rfl rfl rfl rfl)
      · exact protocolError_handles config _ app

theorem processReply_handles (config : Config) (callId : UInt32) (result : Option Value)
    (errorMsg : Option Bytes) (app : App) :
    Handles config (processReply config callId result errorMsg) app := by
  unfold processReply Handles
  simp only [ensures_bind, ensures_get, ensures_modify]
  have freed : Noted app (app.setPool fun pool =>
      { pool with calls := (app.pool.calls.findCall callId).2.2 }) := .of_log rfl rfl rfl rfl
  split
  · exact (protocolError_handles config _ _).after freed
  · exact (processPoolLogin_handles config _ _ _).after freed
  · rw [ensures_bind]
    exact (onResultReply_handles config _ _ _ _ _).after freed
  · unfold processPoolKeepalive
    split
    · exact (protocolError_handles config _ _).after freed
    · exact .noted freed

/-- Handling a document logs it and then has one of the outcomes. -/
theorem processJsonDoc_handles (config : Config) (doc : Value) (app : App) :
    Ensures (processJsonDoc config doc) app
      (fun _ next => Handled config (app.record (.document doc)) next) DocumentFault := by
  have error := fun err => protocolError_handles config err (app.record (.document doc))
  unfold processJsonDoc
  rw [ensures_bind]
  refine handles_member fun method => ?_
  split
  · split
    · refine handles_member fun params => ?_
      split
      · exact processPoolJob_handles config _ _
      · exact error _
    · exact error _
  · exact error _
  · refine handles_member fun id => ?_
    split
    · refine handles_member fun failure => ?_
      split
      · refine handles_member fun result => ?_
        split
        · exact error _
        · exact processReply_handles config _ _ _ _
        · exact error _
      · refine handles_member fun result => ?_
        split
        · exact error _
        · exact processReply_handles config _ _ _ _
        · exact error _
      · refine handles_member fun message => ?_
        split
        · exact processReply_handles config _ _ _ _
        · exact error _
      · exact error _
    · exact error _

end EpicMiner.EventLoop
