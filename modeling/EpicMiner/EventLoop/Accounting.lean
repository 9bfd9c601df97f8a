import EpicMiner.EventLoop.Footprint
import EpicMiner.EventLoop.Matching

/-!
Owns the accounting of shares. A reply is counted with the target of the pool's
own job at that moment, and not with the one of the job that the share was found
for; the counts and their sum are compared here with what the log says.
-/

namespace EpicMiner.EventLoop

open EpicMiner.Library
open EpicMiner.Library.Program
open EpicMiner.Data

variable {Engine : Type}

/-! ## Replies to shares -/

/-- The published jobs that the accesses in the log amount to. -/
def publishedBy : List Effect → PublishedJobs
  | [] => .initial
  | .shared op :: older => (publishedBy older).apply op
  | _ :: older => publishedBy older

/-- A reply to a share as it was counted: the target that `on_result_reply` was
given, and the target of the job that the share was found for. -/
structure ShareReply where
  target : UInt32
  jobTarget : Option UInt32
  accepted : Bool
deriving DecidableEq

section Replies

-- The target of the job for which the share of each submit line was found.
variable (found : Nat → UInt32)

/-- The call map with the target of the job of each share. -/
def shareDesk (log : List Effect) : Desk UInt32 (Option UInt32) :=
  deskOf none (fun count _ => some (found count)) log

/-- The target of the job of the share that the latest document answers. -/
def answeredShare : List Effect → Option UInt32
  | .document doc :: earlier =>
      ((answeredCall doc).bind fun callId => (shareDesk found earlier).answer callId).join
  | _ => none

/-- The replies to shares since the last `push_idle_job`, which a lost connection
leads to unless the miners are idle. -/
def repliesSince : List Effect → List ShareReply
  | [] => []
  | .resultReply target error _ _ :: older =>
      ⟨target, answeredShare found older, error.isNone⟩ :: repliesSince older
  | .shared .publishIdle :: older =>
      if (publishedBy older).currentJob.type ≠ .idle then [] else repliesSince older
  | _ :: older => repliesSince older

end Replies

/-- The sum of the difficulties of the accepted shares. -/
def totalDiff (targetOf : ShareReply → UInt32) : List ShareReply → UInt64
  | [] => 0
  | reply :: rest =>
      if reply.accepted then totalDiff targetOf rest + (difficulty (targetOf reply)).toUInt64
      else totalDiff targetOf rest

def acceptedCount (replies : List ShareReply) : Nat :=
  (replies.filter fun reply => reply.accepted).length

def rejectedCount (replies : List ShareReply) : Nat :=
  (replies.filter fun reply => !reply.accepted).length

/-- The counters are those of the replies since the last `push_idle_job`, each
reply is for a share that was submitted, and its difficulty is that of the job
which the share was found for. -/
structure Accounted (found : Nat → UInt32) (app : App) : Prop where
  known : ∀ reply ∈ repliesSince found app.log, reply.jobTarget.isSome = true
  accepted : app.executor.poolCtr.acceptedSharesCnt =
    UInt64.ofNat (acceptedCount (repliesSince found app.log))
  rejected : app.executor.poolCtr.rejectedSharesCnt =
    UInt64.ofNat (rejectedCount (repliesSince found app.log))
  totalDiff : app.executor.poolCtr.totalDiff =
    totalDiff (fun reply => reply.jobTarget.getD 0) (repliesSince found app.log)

/-! ## Inside a callback -/

/-- The counters as the code keeps them. -/
structure Counted (found : Nat → UInt32) (app : App) : Prop where
  published : app.executor.published = publishedBy app.log
  known : ∀ reply ∈ repliesSince found app.log, reply.jobTarget.isSome = true
  accepted : app.executor.poolCtr.acceptedSharesCnt =
    UInt64.ofNat (acceptedCount (repliesSince found app.log))
  rejected : app.executor.poolCtr.rejectedSharesCnt =
    UInt64.ofNat (rejectedCount (repliesSince found app.log))
  totalDiff : app.executor.poolCtr.totalDiff =
    totalDiff ShareReply.target (repliesSince found app.log)

def Effect.isCounted : Effect → Bool
  | .resultReply _ _ _ _ => true
  | .shared (.publish _) => true
  | .shared .publishIdle => true
  | _ => false

theorem uncounted {found : Nat → UInt32} {newer older : List Effect}
    (silent : ∀ effect ∈ newer, effect.isCounted = false) :
    publishedBy (newer ++ older) = publishedBy older ∧
      repliesSince found (newer ++ older) = repliesSince found older := by
  refine ⟨read_append (fun effect older isSilent => ?_) silent,
    read_append (fun effect older isSilent => ?_) silent⟩
  · cases effect with
    | shared op => cases op <;> first | rfl | cases isSilent
    | _ => rfl
  · cases effect with
    | shared op => cases op <;> first | rfl | cases isSilent
    | _ => first | rfl | cases isSilent

namespace Counted

variable {found : Nat → UInt32} {app next : App}

theorem quiet (counted : Counted found app) (newer : List Effect)
    (log : next.log = newer ++ app.log) (silent : ∀ effect ∈ newer, effect.isCounted = false)
    (published : next.executor.published = app.executor.published)
    (counters : next.executor.poolCtr.acceptedSharesCnt =
        app.executor.poolCtr.acceptedSharesCnt ∧
      next.executor.poolCtr.rejectedSharesCnt = app.executor.poolCtr.rejectedSharesCnt ∧
      next.executor.poolCtr.totalDiff = app.executor.poolCtr.totalDiff) : Counted found next := by
  obtain ⟨samePublished, sameReplies⟩ := @uncounted found newer app.log silent
  obtain ⟨accepted, rejected, total⟩ := counters
  constructor
  · rw [published, log, samePublished]
    exact counted.published
  · rw [log, sameReplies]
    exact counted.known
  · rw [accepted, log, sameReplies]
    exact counted.accepted
  · rw [rejected, log, sameReplies]
    exact counted.rejected
  · rw [total, log, sameReplies]
    exact counted.totalDiff

/-- A job is published; only the time stamp of the counters may change. -/
theorem jobAccepted (counted : Counted found app) (config : Config) (job : PoolJob) :
    Counted found (app.jobAccepted config job) where
  published := congrArg (PublishedJobs.publish · _) counted.published
  known := counted.known
  accepted := by
    have same : (app.executor.poolCtr.date app.nowSeconds).acceptedSharesCnt =
        app.executor.poolCtr.acceptedSharesCnt := by
      unfold SessionCounters.date
      split <;> rfl
    exact same.trans counted.accepted
  rejected := by
    have same : (app.executor.poolCtr.date app.nowSeconds).rejectedSharesCnt =
        app.executor.poolCtr.rejectedSharesCnt := by
      unfold SessionCounters.date
      split <;> rfl
    exact same.trans counted.rejected
  totalDiff := by
    have same : (app.executor.poolCtr.date app.nowSeconds).totalDiff =
        app.executor.poolCtr.totalDiff := by
      unfold SessionCounters.date
      split <;> rfl
    exact same.trans counted.totalDiff

/-- `push_idle_job` resets the counters, and happens unless the miners are idle. -/
theorem disconnected (counted : Counted found app) : Counted found app.disconnected := by
  have replies : repliesSince found app.disconnected.log =
      if app.currentType ≠ .idle then [] else repliesSince found app.log := by
    rw [App.currentType, counted.published]
    rfl
  by_cases idle : app.currentType = .idle
  · have executor : app.disconnected.executor = app.executor := by simp [App.disconnected, idle]
    have same : publishedBy app.disconnected.log = publishedBy app.log := by
      change (if (publishedBy app.log).currentJob.type ≠ .idle then
          (publishedBy app.log).publish .idle else publishedBy app.log) = publishedBy app.log
      rw [← counted.published]
      exact if_neg (not_not.mpr idle)
    rw [if_neg (not_not.mpr idle)] at replies
    constructor
    · rw [executor, same]
      exact counted.published
    · rw [replies]
      exact counted.known
    · rw [executor, replies]
      exact counted.accepted
    · rw [executor, replies]
      exact counted.rejected
    · rw [executor, replies]
      exact counted.totalDiff
  · have executor : app.disconnected.executor =
        { poolCtr := .zero, published := app.executor.published.publish .idle } := by
      simp [App.disconnected, idle]
    rw [if_pos idle] at replies
    constructor
    · rw [executor]
      change app.executor.published.publish .idle =
        if (publishedBy app.log).currentJob.type ≠ .idle then (publishedBy app.log).publish .idle
        else publishedBy app.log
      rw [← counted.published]
      exact (if_pos idle).symm
    · rw [replies]
      simp
    · rw [executor, replies]
      rfl
    · rw [executor, replies]
      rfl
    · rw [executor, replies]
      rfl

/-- A reply is counted once, with the target it is given. -/
theorem replied (counted : Counted found app)
    (known : (answeredShare found app.log).isSome = true) (target : UInt32)
    (error : Option Bytes) (rtt : UInt64) (minerId : UInt32) :
    Counted found (app.replied target error rtt minerId) := by
  cases error with
  | none =>
      refine ⟨counted.published, ?_, ?_, ?_, ?_⟩
      · intro reply member
        rcases List.mem_cons.mp member with rfl | member
        · exact known
        · exact counted.known reply member
      · change app.executor.poolCtr.acceptedSharesCnt + 1 = _
        rw [counted.accepted]
        exact (UInt64.ofNat_add _ 1).symm
      · exact counted.rejected
      · change app.executor.poolCtr.totalDiff + (difficulty target).toUInt64 = _
        rw [counted.totalDiff]
        rfl
  | some text =>
      refine ⟨counted.published, ?_, counted.accepted, ?_, counted.totalDiff⟩
      · intro reply member
        rcases List.mem_cons.mp member with rfl | member
        · exact known
        · exact counted.known reply member
      · change app.executor.poolCtr.rejectedSharesCnt + 1 = _
        rw [counted.rejected]
        exact (UInt64.ofNat_add _ 1).symm

end Counted

/-! ### Both desks at once -/

def jointLogin : CallPayload × Option UInt32 :=
  ((.login, invalidMinerId), none)

def jointShare (found : Nat → UInt32) (count : Nat) (res : MinerResult) :
    CallPayload × Option UInt32 :=
  ((.result, res.minerId), some (found count))

/-- The call map with what it keeps of a call, and the target of the job. -/
def jointDesk (found : Nat → UInt32) (log : List Effect) :
    Desk UInt32 (CallPayload × Option UInt32) :=
  deskOf jointLogin (jointShare found) log

theorem slots_callDesk (found : Nat → UInt32) (log : List Effect) :
    (callDesk log).slots = Desk.relabel Prod.fst (jointDesk found log).slots :=
  slots_deskOf_relabel jointLogin (jointShare found) Prod.fst log

theorem slots_shareDesk (found : Nat → UInt32) (log : List Effect) :
    (shareDesk found log).slots = Desk.relabel Prod.snd (jointDesk found log).slots :=
  slots_deskOf_relabel jointLogin (jointShare found) Prod.snd log

/-- A reply that matches the call of a share is for a share that was submitted: the
two desks hold the same tickets, so what one answers the other does. -/
theorem answeredShare_isSome (found : Nat → UInt32) {app : App} (traced : Traced app) {doc : Value}
    {callId : UInt32} (answered : answeredCall doc = some callId)
    (isResult : (app.pool.calls.findCall callId).1 = .result) :
    (answeredShare found (.document doc :: app.log)).isSome = true := by
  obtain ⟨-, -, outcome⟩ := app.pool.calls.findCall_take callId
  rcases outcome with ⟨-, invalid⟩ | ⟨taken, -⟩
  · rw [isResult] at invalid
    cases invalid
  · rw [traced.slots, slots_callDesk found, Desk.take_relabel, isResult] at taken
    obtain ⟨payload, there, same⟩ := Option.map_eq_some_iff.mp taken
    have held : some (callId, payload) ∈ (jointDesk found app.log).slots := by
      rcases Desk.take_cases callId (jointDesk found app.log).slots with
        ⟨-, fails⟩ | ⟨before, other, after, split, took⟩
      · rw [fails] at there
        cases there
      · rw [took] at there
        cases there
        simp [split]
    have known : payload.1.1 = .result → payload.2.isSome = true := by
      refine deskOf_payloads _ _ (fun payload => payload.1.1 = .result → payload.2.isSome = true)
        ?_ ?_ app.log callId payload held
      · intro login
        cases login
      · intro count res _
        rfl
    have answer : answeredShare found (.document doc :: app.log) = payload.2 := by
      simp only [answeredShare, answered, Option.bind_some, Desk.answer,
        slots_shareDesk, Desk.take_relabel, there, Option.map_some, Option.join_some]
    rw [answer]
    exact known (by rw [same])

theorem Counted.outcome {found : Nat → UInt32} {config : Config} {param : Value} {app next : App}
    {accepted : Bool} (counted : Counted found app)
    (outcome : JobOutcome config param app accepted next) : Counted found next := by
  cases outcome with
  | refused _ => exact counted.quiet [_] rfl (by simp [Effect.isCounted]) rfl ⟨rfl, rfl, rfl⟩
  | rejected _ _ _ _ _ =>
      exact counted.quiet [_, _] rfl (by simp [Effect.isCounted]) rfl ⟨rfl, rfl, rfl⟩
  | accepted _ job _ _ => exact counted.jobAccepted config _

theorem Counted.processed {found : Nat → UInt32} {config : Config} {members : List (Bytes × Value)}
    {app next : App} {accepted : Bool} (traced : Traced app) (counted : Counted found app)
    (processed : Processed config (app.record (.document (.object members)))
      (Message.ofMembers members) accepted next) : Counted found next := by
  have documented : Counted found (app.record (.document (.object members))) :=
    counted.quiet [_] rfl (by simp [Effect.isCounted]) rfl ⟨rfl, rfl, rfl⟩
  generalize message : Message.ofMembers members = shape at processed
  cases processed with
  | refused err =>
      exact documented.quiet [_] rfl (by simp [Effect.isCounted]) rfl ⟨rfl, rfl, rfl⟩
  | job outcome => exact documented.outcome outcome
  | @replyRefused callId _ err _ _ =>
      exact documented.quiet [_] rfl (by simp [Effect.isCounted]) rfl ⟨rfl, rfl, rfl⟩
  | @loggedIn callId _ id _ _ _ _ _ _ outcome =>
      have freed : Counted found
          (((app.record (.document (.object members))).freed callId).identified id) :=
        documented.quiet [] rfl (by simp) rfl ⟨rfl, rfl, rfl⟩
      exact freed.outcome outcome
  | kept _ => exact documented.quiet [] rfl (by simp) rfl ⟨rfl, rfl, rfl⟩
  | @shareReplied callId outcome rtt isResult _ =>
      have freed : Counted found ((app.record (.document (.object members))).freed callId) :=
        documented.quiet [] rfl (by simp) rfl ⟨rfl, rfl, rfl⟩
      apply freed.replied
      exact answeredShare_isSome found traced (answeredCall_reply message) isResult

/-! ## Runs -/

def counting (found : Nat → UInt32) : Behaviour Fault (Sys Engine) :=
  .keeping (fun sys => Traced sys.app ∧ Counted found sys.app) fun _ => False

theorem counting_quiet (found : Nat → UInt32) {sys next : Sys Engine}
    (traces : tracing.Change sys next) (newer : List Effect)
    (log : next.app.log = newer ++ sys.app.log)
    (silent : ∀ effect ∈ newer, effect.isCounted = false)
    (executor : next.app.executor = sys.app.executor) : (counting found).Change sys next := by
  rintro ⟨traced, counted⟩
  refine ⟨traces traced, counted.quiet newer log silent (by rw [executor]) ?_⟩
  rw [executor]
  exact ⟨rfl, rfl, rfl⟩

theorem Effect.isCounted_of_routine {effect : Effect} (routine : effect.isRoutine = true) :
    effect.isCounted = false := by
  cases effect with
  | shared op => cases op <;> first | rfl | cases routine
  | _ => first | rfl | cases routine

theorem counting_turn (env : Env Engine) (found : Nat → UInt32) : Turn env (counting found) := by
  have traces := tracing_turn env
  apply traces.beyond
  case fault => exact fun _ _ _ => id
  case routine =>
    intro sys next newer traces routine
    apply counting_quiet found traces newer routine.log _ routine.executor
    exact fun effect member => Effect.isCounted_of_routine (routine.effects effect member)
  case document =>
    intro sys members
    apply Ends.processed fun _ _ => id
    intro accepted app processed ⟨traced, counted⟩
    exact ⟨traced.processed processed, counted.processed traced processed⟩
  case dialled =>
    intro sys idle
    apply counting_quiet found (traces.dialled sys idle) [_] rfl _ rfl
    simp [Effect.isCounted]
  case socketClosed =>
    intro sys due ⟨traced, counted⟩
    refine ⟨traces.socketClosed sys due traced, ?_⟩
    exact counted.disconnected.quiet [_] rfl (by simp [Effect.isCounted]) rfl ⟨rfl, rfl, rfl⟩

theorem Untouched.counted {sys : Sys Engine} (untouched : Untouched sys) (found : Nat → UInt32) :
    Counted found sys.app := by
  have counters := untouched.counters
  constructor
  · rw [untouched.published, untouched.log]
    rfl
  · simp [untouched.log, repliesSince]
  · rw [counters, untouched.log]
    rfl
  · rw [counters, untouched.log]
    rfl
  · rw [counters, untouched.log]
    rfl

theorem reachable_counted {env : Env Engine} {sys : Sys Engine} (found : Nat → UInt32)
    (reachable : (machine env).Reachable sys) : Counted found sys.app := by
  rcases (counting_turn env found).sinceDial reachable with
    untouched | ⟨before, untouched, change⟩
  · exact untouched.counted found
  · refine (change ⟨untouched.traced, ?_⟩).2
    exact (untouched.counted found).quiet [_] rfl (by simp [Effect.isCounted]) rfl ⟨rfl, rfl, rfl⟩

/-- Each accepted reply is handled while the pool's own job has the difficulty of
the job that the share was found for. -/
def TargetsAgree (found : Nat → UInt32) (log : List Effect) : Prop :=
  ∀ reply ∈ repliesSince found log, reply.accepted = true →
    difficulty reply.target = difficulty (reply.jobTarget.getD 0)

theorem totalDiff_congr {left right : ShareReply → UInt32} {replies : List ShareReply}
    (agree : ∀ reply ∈ replies, reply.accepted = true →
      difficulty (left reply) = difficulty (right reply)) :
    totalDiff left replies = totalDiff right replies := by
  induction replies with
  | nil => rfl
  | cons reply rest inductionHypothesis =>
      have same := inductionHypothesis fun other member => agree other (.tail _ member)
      unfold totalDiff
      split
      · rename_i accepted
        rw [same, agree reply (.head _) accepted]
      · exact same

/-- In every run in which the difficulty of the pool's own job has not changed
between a share and its acceptance, the counters are those of the replies. -/
theorem shares_accounted (env : Env Engine) (sys : Sys Engine)
    (reachable : (machine env).Reachable sys) (found : Nat → UInt32)
    (agree : TargetsAgree found sys.app.log) : Accounted found sys.app := by
  have counted := reachable_counted found reachable
  exact ⟨counted.known, counted.accepted, counted.rejected,
    counted.totalDiff.trans (totalDiff_congr agree)⟩

/-! ## Sample runs -/

instance (found : Nat → UInt32) (log : List Effect) : Decidable (TargetsAgree found log) := by
  unfold TargetsAgree
  exact List.decidableBAll _ _

/-- The only share is found for the sample job. -/
def sampleFound (_ : Nat) : UInt32 := 0xffffffff

theorem shares_accounted_sample :
    ∃ sys, (machine .accepting).Reachable sys ∧
      acceptedCount (repliesSince sampleFound sys.app.log) = 1 ∧
      Accounted sampleFound sys.app := by
  have executed := Machine.execute_reachable Sys.start_initial (step .accepting) acceptedSession
    (fun sys => acceptedCount (repliesSince sampleFound sys.app.log) = 1 ∧
      TargetsAgree sampleFound sys.app.log) (by decide +kernel)
  generalize Machine.execute _ _ _ = state at executed
  obtain ⟨reachable, accepted, agree⟩ := executed
  exact ⟨state, reachable, accepted,
    shares_accounted .accepting state reachable sampleFound agree⟩

/-- A job with sixteen times the difficulty of the sample job. -/
def JobMessage.harder : JobMessage :=
  { sample with
    jobid := ascii "2"
    target := ascii "ffffff0f" }

def Env.retargeting : Env Unit :=
  .plain (.ofRun (.ofTexts
    [(JobMessage.sample.text, JobMessage.sample.doc),
      (JobMessage.harder.text, JobMessage.harder.doc), (acceptedText, acceptedDoc)]) ethashEpoch)

/-- A share is found for the sample job, a harder job arrives, and the share is
accepted. -/
def retargetedSession : List Input :=
  sampleSession ++
    [(Event.foundResult sampleShare).at 20040, (Event.written firstSlot 0).at 20045,
      (Event.read (JobMessage.harder.text ++ [10])).at 20050,
      (Event.read (acceptedText ++ [10])).at 20055]

/-- The share is counted with the difficulty of the harder job. -/
theorem retargeted_share_not_accounted :
    ∃ sys, (machine .retargeting).Reachable sys ∧
      repliesSince sampleFound sys.app.log = [⟨0x0fffffff, some 0xffffffff, true⟩] ∧
      sys.app.executor.poolCtr.totalDiff = 16 ∧ ¬ Accounted sampleFound sys.app := by
  have executed := Machine.execute_reachable Sys.start_initial (step .retargeting)
    retargetedSession (fun sys =>
      repliesSince sampleFound sys.app.log = [⟨0x0fffffff, some 0xffffffff, true⟩] ∧
        sys.app.executor.poolCtr.totalDiff = 16) (by decide +kernel)
  generalize Machine.execute _ _ _ = state at executed
  obtain ⟨reachable, replies, counted⟩ := executed
  refine ⟨state, reachable, replies, counted, fun accounted => ?_⟩
  have total := accounted.totalDiff
  rw [counted, replies] at total
  exact absurd total (by decide)

end EpicMiner.EventLoop
