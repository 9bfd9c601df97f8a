import EpicMiner.EventLoop.Accounting
import EpicMiner.EventLoop.Echo
import EpicMiner.EventLoop.JobBounds

/-!
Owns where the published jobs come from. Each is made of the job in one document, a
notification or the answer to a login call, that was processed before it was published; all
that a message says of its job is then in it.
-/

namespace EpicMiner.EventLoop

open EpicMiner.Library
open EpicMiner.Library.Program
open EpicMiner.Data

variable {Engine : Type}

/-! ## Jobs of messages -/

/-- The job in a document, be it a notification or the answer to a call. -/
def offeredJob : Value → Option Value
  | .object members =>
      match Message.ofMembers members with
      | .job params => some (.object params)
      | .reply _ (.ok fields) => firstMember fields "job"
      | _ => none
  | _ => none

/-- The blob that a job message spells. -/
def JobParams.blobBytes (params : JobParams) : Bytes :=
  hexStored (blobDigits params)

/-- The target that a job message spells. -/
def JobParams.targetWord (params : JobParams) : UInt32 :=
  ofLe32 (hexStored (paddedTarget params.target))

/-- A published job says what a message says: its id, its algorithm, its blob with the nonce in
the last four bytes, its target and its height. -/
structure Carries (params : JobParams) (job : MinerJob) : Prop where
  type : powTypeOf params.powAlgo = some job.type
  id : cString job.id.cells = cString params.jobid
  length : params.blobBytes.length ≤ 512
  blob : job.blob.slice 0 params.blobBytes.length = params.blobBytes
  blobLen : job.blobLen = params.blobBytes.length.toUInt32
  noncePos : job.noncePos = params.blobBytes.length.toUInt32 - 4
  target : job.target = params.targetWord
  height : job.height = params.height

/-- The job is that of a document which was processed before. -/
def Offered (job : MinerJob) (older : List Effect) : Prop :=
  ∃ doc param params, .document doc ∈ older ∧ offeredJob doc = some param ∧
    JobMembers param params ∧ Carries params job

theorem length_blobBytes {params : JobParams} (digits : AllHex (blobDigits params)) :
    params.blobBytes.length = workLen params := by
  have half : workLen params = params.blob.length / 2 := rfl
  have length : (blobDigits params).length = workLen params * 2 := by
    rw [blobDigits, List.length_take]
    omega
  rw [JobParams.blobBytes, length_hexStored digits, length]
  omega

theorem published_fields (getEpochNumber : Int32 → Int32) (job : PoolJob) :
    (MinerJob.published getEpochNumber job).target = job.target ∧
      (MinerJob.published getEpochNumber job).height = job.height := by
  unfold MinerJob.published
  split <;> exact ⟨rfl, rfl⟩

theorem Filled.carries {params : JobParams} {job filled : PoolJob}
    (isFilled : Filled params job filled) (getEpochNumber : Int32 → Int32) :
    Carries params
      (.published getEpochNumber { finishJob params filled with nonce := 0 }) := by
  generalize made : ({ finishJob params filled with nonce := 0 } : PoolJob) = finished
  obtain ⟨blobLen, noncePos, type, blob⟩ := published_indices getEpochNumber finished
  obtain ⟨target, height⟩ := published_fields getEpochNumber finished
  have id := published_id getEpochNumber finished
  have length := length_blobBytes isFilled.digits
  have short := isFilled.length
  subst made
  constructor
  case type => rw [type]; exact isFilled.type
  case id =>
    rw [id]
    change cString filled.id.cells = _
    rw [isFilled.id]
    exact cString_write _ isFilled.jobid
  case length => omega
  case blob =>
    rw [blob]
    change filled.blob.slice 0 _ = _
    rw [isFilled.blob]
    exact Buffer.slice_write_self _ 0 params.blobBytes (by omega)
  case blobLen => rw [blobLen, length]; rfl
  case noncePos => rw [noncePos, length]; rfl
  case target => rw [target]; exact isFilled.target
  case height => rw [height]; rfl

/-! ## Published jobs -/

/-- Every job was offered before it was published. -/
def JobsOffered (log : List Effect) : Prop :=
  ∀ newer job older, log = newer ++ .shared (.publish job) :: older → Offered job older

theorem Offered.append {job : MinerJob} {older : List Effect} (offered : Offered job older)
    (newer : List Effect) : Offered job (newer ++ older) := by
  obtain ⟨doc, param, params, processed, offers, found, carries⟩ := offered
  exact ⟨doc, param, params, List.mem_append_right newer processed, offers, found, carries⟩

theorem JobsOffered.cons {effect : Effect} {log : List Effect} (jobs : JobsOffered log)
    (published : ∀ job, effect = .shared (.publish job) → Offered job log) :
    JobsOffered (effect :: log) := by
  intro newer job older split
  cases newer with
  | nil =>
      obtain ⟨same, rfl⟩ := List.cons.inj split
      exact published job same
  | cons first newer =>
      obtain ⟨-, rest⟩ := List.cons.inj split
      exact jobs newer job older rest

theorem JobsOffered.quiet {newer log : List Effect} (jobs : JobsOffered log)
    (unpublished : ∀ effect ∈ newer, effect.isPublish = false) : JobsOffered (newer ++ log) := by
  induction newer with
  | nil => exact jobs
  | cons effect newer inductionHypothesis =>
      apply (inductionHypothesis fun other member => unpublished other (.tail _ member)).cons
      rintro job rfl
      cases unpublished _ (.head _)

/-- A job that the log publishes stands in the list of the jobs, behind an idle one. -/
theorem mem_publishedBy {log : List Effect} {job : MinerJob}
    (member : job ∈ (publishedBy log).jobs) :
    job = .idle ∨ ∃ newer older, log = newer ++ .shared (.publish job) :: older := by
  induction log with
  | nil => exact .inl (List.mem_singleton.mp member)
  | cons effect log inductionHypothesis =>
      have earlier : job ∈ (publishedBy log).jobs →
          job = .idle ∨ ∃ newer older, effect :: log = newer ++ .shared (.publish job) :: older := by
        intro member
        refine (inductionHypothesis member).imp_right ?_
        rintro ⟨newer, older, split⟩
        exact ⟨effect :: newer, older, congrArg (effect :: ·) split⟩
      cases effect with
      | shared op =>
          cases op with
          | publish added =>
              rcases List.mem_append.mp member with old | new
              · exact earlier old
              · obtain rfl := List.mem_singleton.mp new
                exact .inr ⟨[], log, rfl⟩
          | publishIdle =>
              change job ∈ ((publishedBy log).apply .publishIdle).jobs at member
              unfold PublishedJobs.apply at member
              dsimp only at member
              split at member
              · rcases List.mem_append.mp member with old | new
                · exact earlier old
                · exact .inl (List.mem_singleton.mp new)
              · exact earlier member
          | storeNonce | adjustToSeed seed | adjustToBlock height => exact earlier member
      | _ => exact earlier member

/-! ## Inside a callback -/

theorem JobOutcome.jobsOffered {config : Config} {param : Value} {app next : App}
    {accepted : Bool} (outcome : JobOutcome config param app accepted next)
    (offered : ∃ doc, .document doc ∈ app.log ∧ offeredJob doc = some param)
    (jobs : JobsOffered app.log) : JobsOffered next.log := by
  cases outcome with
  | refused found => exact jobs.cons nofun
  | rejected params err job found filled =>
      have reset : JobsOffered (.shared .storeNonce :: app.log) := jobs.cons nofun
      exact reset.cons nofun
  | accepted params job found filled =>
      obtain ⟨doc, processed, offers⟩ := offered
      have quiet : JobsOffered ([.shared (.adjustToBlock params.height),
          .shared (.adjustToSeed job.randomxSeed), .newJob { finishJob params job with nonce := 0 },
          .shared .storeNonce, .hasJob, .shared .storeNonce] ++ app.log) :=
        jobs.quiet (by simp [Effect.isPublish])
      apply quiet.cons
      rintro _ ⟨⟩
      refine ⟨doc, param, params, List.mem_append_right _ processed, offers,
        checkParams_found found, ?_⟩
      exact (filled_of_accepted filled).carries config.getEpochNumber

theorem JobsOffered.processed {config : Config} {members : List (Bytes × Value)}
    {app next : App} {accepted : Bool} (jobs : JobsOffered app.log)
    (processed : Processed config (app.record (.document (.object members)))
      (Message.ofMembers members) accepted next) : JobsOffered next.log := by
  have noted : JobsOffered (.document (.object members) :: app.log) := jobs.cons nofun
  have offers : ∀ {param}, offeredJob (.object members) = some param →
      ∃ doc, .document doc ∈ Effect.document (.object members) :: app.log ∧
        offeredJob doc = some param :=
    fun same => ⟨.object members, .head _, same⟩
  generalize message : Message.ofMembers members = shape at processed
  cases processed with
  | refused err => exact noted.cons nofun
  | job outcome =>
      exact outcome.jobsOffered (offers (by simp only [offeredJob, message])) noted
  | replyRefused err notResult notLogin => exact noted.cons nofun
  | loggedIn isLogin foundId foundJob outcome =>
      exact outcome.jobsOffered (offers (by simp only [offeredJob, message, foundJob])) noted
  | kept isKept => exact noted
  | @shareReplied callId outcome rtt isResult named =>
      cases error : errorText outcome with
      | none => exact noted.cons nofun
      | some text =>
          have replied : JobsOffered (.resultReply app.pool.myJob.target (some text) rtt
              (app.pool.calls.findCall callId).2.1 :: .document (.object members) :: app.log) :=
            noted.cons nofun
          exact replied.cons nofun

/-! ## Runs -/

def offering : Behaviour Fault (Sys Engine) :=
  .keeping (fun sys => JobsOffered sys.app.log) fun _ => False

theorem offering_turn (env : Env Engine) : Turn env offering := by
  apply (anything_turn env).beyond
  case fault => exact fun _ _ _ => id
  case routine =>
    intro sys next newer _ routine jobs
    rw [routine.log]
    exact jobs.quiet fun effect member =>
      Effect.isPublish_of_routine (routine.effects effect member)
  case document =>
    intro sys members
    apply Ends.processed fun _ _ => id
    exact fun accepted app processed jobs => jobs.processed processed
  case dialled => exact fun sys idle jobs => jobs.cons nofun
  case socketClosed =>
    intro sys due jobs
    have closed : JobsOffered ([.closed, .shared .publishIdle, .shared .storeNonce] ++ sys.app.log) :=
      jobs.quiet (by simp [Effect.isPublish])
    exact closed

/-- In every run, each job was offered before it was published. -/
theorem reachable_jobsOffered {env : Env Engine} {sys : Sys Engine}
    (reachable : (machine env).Reachable sys) : JobsOffered sys.app.log := by
  have none : JobsOffered [] := by
    intro newer job older split
    cases newer <;> cases split
  rcases (offering_turn env).sinceDial reachable with untouched | ⟨before, untouched, change⟩
  · rw [untouched.log]
    exact none
  · apply change
    show JobsOffered (.dial _ :: before.app.log)
    rw [untouched.log]
    exact none.cons nofun

end EpicMiner.EventLoop
