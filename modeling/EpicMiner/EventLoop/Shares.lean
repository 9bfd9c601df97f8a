import EpicMiner.EventLoop.Accounting
import EpicMiner.EventLoop.JobBounds
import EpicMiner.EventLoop.Submit

/-!
Owns what the log says about shares and connections: the share that each submit
line was formatted for, and the jobs that the present connection has received.
-/

namespace EpicMiner.EventLoop

open EpicMiner.Library
open EpicMiner.Library.Program
open EpicMiner.Data

variable {Engine : Type}

/-! ## Shares submitted -/

/-- The shares that submit lines were formatted for, latest first, each with the log
before it. -/
def submitted : List Effect → List (MinerResult × List Effect)
  | [] => []
  | .submit _ res :: older => (res, older) :: submitted older
  | _ :: older => submitted older

def Effect.isSubmit : Effect → Bool
  | .submit _ _ => true
  | _ => false

theorem submitted_quiet {newer older : List Effect}
    (silent : ∀ effect ∈ newer, effect.isSubmit = false) :
    submitted (newer ++ older) = submitted older := by
  refine read_append (fun effect older isSilent => ?_) silent
  cases effect with
  | submit callId res => cases isSilent
  | _ => rfl

theorem mem_submitted {callId : UInt32} {res : MinerResult} {newer older log : List Effect}
    (split : log = newer ++ .submit callId res :: older) : (res, older) ∈ submitted log := by
  subst split
  induction newer with
  | nil => exact .head _
  | cons effect newer inductionHypothesis =>
      cases effect with
      | submit callId res => exact .tail _ inductionHypothesis
      | _ => exact inductionHypothesis

/-- The behaviour of all that formats no submit line. -/
def unsubmitting : Behaviour Fault (Sys Engine) where
  Change := fun sys next => submitted next.app.log = submitted sys.app.log
  Fault := fun _ _ => True
  refl := fun _ => rfl
  trans := fun first second => second.trans first
  fault_trans := fun _ _ => trivial

theorem unsubmitting_passing (env : Env Engine) : Passing env unsubmitting where
  fault := fun _ _ => trivial
  admitted := fun _ _ => rfl
  plumbing := by
    intro sys next app _ _ _
    show submitted next.app.log = submitted sys.app.log
    rw [app]
  logError := fun _ _ => rfl
  shutdownCalled := fun _ => rfl
  uvWrite := fun _ _ _ _ _ => rfl
  shutdownStarted := fun _ _ _ => rfl
  jobDropped := fun _ _ => rfl
  document := by
    intro sys members _
    apply Ends.document fun _ _ => trivial
    intro app handled
    obtain ⟨newer, log, handlings⟩ := handled.log
    show submitted app.log = submitted (.document (.object members) :: sys.app.log)
    rw [log]
    apply submitted_quiet
    intro effect member
    have handling := handlings effect member
    cases effect <;> first | rfl | cases handling
  welcomed := fun _ _ _ => rfl
  loginMade := fun _ _ => rfl
  dialled := fun _ _ => rfl
  shutdownEnded := fun _ _ => rfl
  socketClosed := fun _ _ => rfl

/-- Only a result that is handed over leads to a submit line. -/
theorem step_submits_nothing {env : Env Engine} {sys next : Sys Engine} {input : Input}
    (attached : Attached env sys) (stepped : (machine env).Step sys input next)
    (other : ∀ res, input.event ≠ .foundResult res) :
    submitted next.app.log = submitted sys.app.log :=
  ((unsubmitting_passing env).step attached stepped fun res found => absurd found (other res)).1

theorem doSendResult_submits (env : Env Engine) (res : MinerResult) (sys : Sys Engine) :
    Ensures (doSendResult env res) sys
      (fun _ next => submitted next.app.log =
        if sys.app.pool.state = .hasJob then
          (res, .share res :: sys.app.log) :: submitted sys.app.log
        else submitted sys.app.log)
      fun _ => True := by
  unfold doSendResult doSendResultThrough
  rw [ensures_bind, ensures_get, ensures_ite]
  constructor
  · intro none
    rw [if_neg none]
    exact rfl
  · intro has
    rw [if_pos (not_not.mp has), ensures_bind_of_run (run_prepareResult res), ensures_bind,
      ensures_get]
    have core := (unsubmitting_passing env).rounds.toCore
    apply Ensures.mono (core.sendLine (submitLine_ne_nil _ res _) (sys.shareMade res))
    rintro _ next ⟨same, -⟩
    exact same

/-- A result that is handed over to a pool with a job leads to one submit line, which
is its own, and else to none. -/
theorem step_submits {env : Env Engine} {sys next : Sys Engine} {input : Input}
    {res : MinerResult} (stepped : (machine env).Step sys input next)
    (found : input.event = .foundResult res) :
    submitted next.app.log =
      if sys.app.pool.state = .hasJob then
        (res, .share res :: sys.app.log) :: submitted sys.app.log
      else submitted sys.app.log := by
  have ended := run_of_handle (step_enabled stepped).2
  rw [found] at ended
  exact (doSendResult_submits env res (sys.answering input)).of_run ended

/-! ## Jobs received -/

/-- A job was published, as the one at a position, on a connection that has not been
closed since. -/
def Received (log : List Effect) (position : Nat) (job : MinerJob) : Prop :=
  ∃ newer older, log = newer ++ .shared (.publish job) :: older ∧
    (∀ effect ∈ newer, effect ≠ .closed) ∧ (publishedBy older).jobs.length = position

theorem received_cons_iff {effect : Effect} {older : List Effect} {position : Nat}
    {job : MinerJob} :
    Received (effect :: older) position job ↔
      effect = .shared (.publish job) ∧ (publishedBy older).jobs.length = position ∨
        effect ≠ .closed ∧ Received older position job := by
  constructor
  · rintro ⟨newer, before, split, open_, length⟩
    cases newer with
    | nil =>
        cases split
        exact .inl ⟨rfl, length⟩
    | cons first newer =>
        injection split with first split
        subst first
        refine .inr ⟨open_ effect (.head _), newer, before, split, ?_, length⟩
        exact fun other member => open_ other (.tail _ member)
  · rintro (⟨rfl, length⟩ | ⟨notClosed, newer, before, rfl, open_, length⟩)
    · exact ⟨[], older, rfl, by simp, length⟩
    · exact ⟨effect :: newer, before, rfl, List.forall_mem_cons.mpr ⟨notClosed, open_⟩, length⟩

theorem Received.found {log : List Effect} {position : Nat} {job : MinerJob}
    (received : Received log position job) : (publishedBy log).jobs[position]? = some job := by
  obtain ⟨newer, older, rfl, -, rfl⟩ := received
  induction newer with
  | nil => exact List.getElem?_concat_length
  | cons effect newer inductionHypothesis =>
      cases effect with
      | shared op => exact PublishedJobs.getElem?_apply op inductionHypothesis
      | _ => exact inductionHypothesis

/-- The ids of the jobs that the present connection has received, latest first. -/
def receivedIds : List Effect → List (Buffer 64)
  | [] => []
  | .closed :: _ => []
  | .shared (.publish job) :: older => job.id :: receivedIds older
  | _ :: older => receivedIds older

theorem Received.mem_receivedIds {log : List Effect} {position : Nat} {job : MinerJob}
    (received : Received log position job) : job.id ∈ receivedIds log := by
  obtain ⟨newer, older, rfl, open_, -⟩ := received
  induction newer with
  | nil => exact .head _
  | cons effect newer inductionHypothesis =>
      have rest := inductionHypothesis fun other member => open_ other (.tail _ member)
      have first := open_ effect (.head _)
      cases effect with
      | closed => exact absurd rfl first
      | shared op =>
          cases op with
          | publish other => exact .tail _ rest
          | _ => exact rest
      | _ => exact rest

def Effect.isBoundary : Effect → Bool
  | .closed => true
  | .shared .publishIdle => true
  | .shared (.publish _) => true
  | _ => false

/-- Accepted jobs are not idle, and `push_idle_job` stands right before each close. -/
inductive Delimited : List Effect → Prop
  | nil : Delimited []
  | closed {older : List Effect} : Delimited older →
      Delimited (.closed :: .shared .publishIdle :: older)
  | publish {job : MinerJob} {older : List Effect} : job.type ≠ .idle → Delimited older →
      Delimited (.shared (.publish job) :: older)
  | other {effect : Effect} {older : List Effect} : effect.isBoundary = false → Delimited older →
      Delimited (effect :: older)

theorem Delimited.append {newer older : List Effect} (delimited : Delimited older)
    (silent : ∀ effect ∈ newer, effect.isBoundary = false) : Delimited (newer ++ older) := by
  induction newer with
  | nil => exact delimited
  | cons effect newer inductionHypothesis =>
      apply Delimited.other (silent effect (.head _))
      exact inductionHypothesis fun other member => silent other (.tail _ member)

theorem publishedBy_current (log : List Effect) :
    (publishedBy log).current + 1 = (publishedBy log).jobs.length := by
  induction log with
  | nil => rfl
  | cons effect older inductionHypothesis =>
      cases effect with
      | shared op => exact PublishedJobs.current_apply op inductionHypothesis
      | _ => exact inductionHypothesis

theorem publishedBy_unbounded {effect : Effect} {older : List Effect}
    (silent : effect.isBoundary = false) : publishedBy (effect :: older) = publishedBy older := by
  cases effect with
  | shared op => cases op <;> first | rfl | cases silent
  | _ => rfl

/-- A job of the present connection is one behind which no idle job was pushed. The
induction is on the log; a close finds the idle job as the current one. -/
theorem received_iff {log : List Effect} (delimited : Delimited log) {position : Nat}
    {job : MinerJob} (found : (publishedBy log).jobs[position]? = some job)
    (mines : job.type ≠ .idle) :
    Received log position job ↔
      ∀ later ∈ (publishedBy log).jobs.drop (position + 1), later.type ≠ .idle := by
  induction delimited with
  | nil =>
      obtain ⟨-, rfl⟩ : position = 0 ∧ MinerJob.idle = job := by
        simpa [publishedBy, PublishedJobs.initial, List.getElem?_singleton] using found
      exact absurd rfl mines
  | @closed older _ _ =>
      have lost : ¬ Received (.closed :: .shared .publishIdle :: older) position job := by
        rw [received_cons_iff]
        rintro (⟨other, -⟩ | ⟨open_, -⟩)
        · cases other
        · exact open_ rfl
      have last := publishedBy_current (.closed :: .shared .publishIdle :: older)
      have idle : (publishedBy (.closed :: .shared .publishIdle :: older)).currentJob.type =
          .idle := PublishedJobs.currentJob_publishIdle
      obtain ⟨later, member, isIdle⟩ := PublishedJobs.exists_idle_behind last idle found mines
      exact iff_of_false lost fun none => none later member isIdle
  | @publish added older busy _ inductionHypothesis =>
      have jobs : (publishedBy (.shared (.publish added) :: older)).jobs =
          (publishedBy older).jobs ++ [added] := rfl
      rw [received_cons_iff, jobs]
      rw [jobs] at found
      rcases Nat.lt_trichotomy position (publishedBy older).jobs.length with before | now | beyond
      · rw [List.getElem?_append_left before] at found
        rw [List.drop_append_of_le_length before, List.forall_mem_append,
          inductionHypothesis found]
        simp [busy, Nat.ne_of_gt before]
      · subst now
        have same : added = job := by simpa using found
        simp [same]
      · rw [List.getElem?_eq_none (by rw [List.length_append]; exact beyond)] at found
        cases found
  | @other effect older silent _ inductionHypothesis =>
      have same : publishedBy (effect :: older) = publishedBy older := publishedBy_unbounded silent
      rw [same] at found
      rw [received_cons_iff, same, inductionHypothesis found]
      constructor
      · rintro (⟨rfl, -⟩ | ⟨-, still⟩)
        · cases silent
        · exact still
      · refine fun still => .inr ⟨?_, still⟩
        rintro rfl
        cases silent

/-! ## Runs -/

theorem powTypeOf_ne_idle (powAlgo : Bytes) : powTypeOf powAlgo ≠ some .idle := by
  unfold powTypeOf
  split
  · decide
  · split
    · decide
    · split <;> decide

/-- A job that `process_pool_job` accepts is mined. -/
theorem published_ne_idle {params : JobParams} {before job : PoolJob}
    (filled : fillJob params before = (none, job)) (getEpochNumber : Int32 → Int32) :
    (MinerJob.published getEpochNumber { finishJob params job with nonce := 0 }).type ≠ .idle := by
  have named := (filled_of_accepted filled).type
  obtain ⟨-, -, type, -⟩ := published_indices getEpochNumber
    { finishJob params job with nonce := 0 }
  rw [type]
  show job.type ≠ .idle
  intro idle
  rw [idle] at named
  exact powTypeOf_ne_idle params.powAlgo named

theorem JobOutcome.delimited {config : Config} {param : Value} {app next : App} {accepted : Bool}
    (outcome : JobOutcome config param app accepted next) (delimited : Delimited app.log) :
    Delimited next.log := by
  cases outcome with
  | refused _ => exact .other rfl delimited
  | rejected params err job _ _ => exact .other rfl (.other rfl delimited)
  | accepted params job _ filled =>
      apply Delimited.publish (published_ne_idle filled config.getEpochNumber)
      show Delimited ([_, _, _, _, _, _] ++ app.log)
      exact delimited.append (by simp [Effect.isBoundary])

theorem Processed.delimited {config : Config} {message : Message} {app next : App} {accepted : Bool}
    (processed : Processed config app message accepted next) (delimited : Delimited app.log) :
    Delimited next.log := by
  cases processed with
  | refused err => exact .other rfl delimited
  | job outcome => exact outcome.delimited delimited
  | replyRefused err _ _ => exact .other rfl delimited
  | loggedIn _ _ _ outcome => exact outcome.delimited delimited
  | shareReplied rtt _ _ =>
      unfold App.replied
      split
      · exact .other rfl delimited
      · exact .other rfl (.other rfl delimited)
  | kept _ => exact delimited

/-- The behaviour that keeps the log delimited. -/
def delimiting : Behaviour Fault (Sys Engine) :=
  .keeping (fun sys => Delimited sys.app.log) fun _ => False

theorem delimiting_turn (env : Env Engine) : Turn env delimiting where
  fault := fun _ _ _ => id
  admitted := fun _ _ => id
  plumbing := by
    intro sys next app _ _ _ delimited
    rw [app]
    exact delimited
  logError := fun _ _ => .other rfl
  shutdownCalled := fun _ => .other rfl
  uvWrite := fun _ _ _ _ _ => .other rfl
  shutdownStarted := fun _ _ _ => .other rfl
  jobDropped := fun _ _ => .other rfl
  document := fun sys members _ => Ends.processed (fun _ _ => id) fun _ _ processed delimited =>
    processed.delimited (.other rfl delimited)
  welcomed := fun _ _ _ => id
  loginMade := fun _ _ => .other rfl
  shareMade := fun _ _ _ delimited => .other rfl (.other rfl delimited)
  dialled := fun _ _ => .other rfl
  shutdownEnded := fun _ _ => id
  socketClosed := fun _ _ delimited => .closed (.other rfl delimited)

theorem reachable_delimited {env : Env Engine} {sys : Sys Engine}
    (reachable : (machine env).Reachable sys) : Delimited sys.app.log := by
  obtain ⟨start, initial, change⟩ := (delimiting_turn env).run reachable
  apply change
  rw [initial.logEmpty]
  exact .nil

theorem publishedBy_eq (log : List Effect) :
    publishedBy log = (sharedOps log).foldl PublishedJobs.apply .initial := by
  induction log with
  | nil => rfl
  | cons effect older inductionHypothesis =>
      have ops : sharedOps (effect :: older) = sharedOps older ++ sharedOps [effect] :=
        sharedOps_append [effect] older
      rw [ops, List.foldl_append, ← inductionHypothesis]
      cases effect <;> rfl

/-- The published jobs are those that the log amounts to. -/
theorem reachable_published {env : Env Engine} {sys : Sys Engine}
    (reachable : (machine env).Reachable sys) :
    sys.app.executor.published = publishedBy sys.app.log := by
  obtain ⟨_, -, published⟩ := sharedOps_eq_scripts env sys reachable
  rw [published, publishedBy_eq]

end EpicMiner.EventLoop
