import EpicMiner.EventLoop.SubmitText
import EpicMiner.Process.Machine

/-!
Owns that submitted shares are genuine: a result keeps the id, nonce, hash and target
of one job together, from the miner that found it, through its queue, to the submit
line.
-/

namespace EpicMiner.Process

open EpicMiner.Library
open EpicMiner.Data
open EpicMiner.EventLoop
  (Sys Effect MinerResult Attached sharedOps newEntries newEntries_eq publishedBy submitted)
open EpicMiner.Mining (Hashes Found Genuine Engaged)

variable {Engine ι : Type}

/-! ## The shared memory -/

/-- A result is a share for the job that it was found for. -/
def Sound (hashes : Hashes) (published : PublishedJobs) (found : Found) : Prop :=
  ∃ job, published.jobs[found.job]? = some job ∧ Genuine hashes job found.result

/-- Published jobs stay where they are. -/
def Grows (published later : PublishedJobs) : Prop :=
  ∀ (position : Nat) (job : MinerJob), published.jobs[position]? = some job →
    later.jobs[position]? = some job

theorem Sound.grow {hashes : Hashes} {published later : PublishedJobs} {found : Found}
    (sound : Sound hashes published found) (grows : Grows published later) :
    Sound hashes later found := by
  obtain ⟨job, isJob, genuine⟩ := sound
  exact ⟨job, grows _ job isJob, genuine⟩

section Access

variable [DecidableEq ι] {state next : Mining.State ι} {getEpochNumber : Int32 → Int32}

/-- An access moves the published jobs along the script, and leaves threads at work. -/
structure Accessed (state next : Mining.State ι) : Prop where
  grows : Grows state.published next.published
  published : next.script.foldl PublishedJobs.apply next.published =
    state.script.foldl PublishedJobs.apply state.published
  engaged : (∀ miner, Engaged state.published (state.threads miner)) →
    ∀ miner, Engaged next.published (next.threads miner)

theorem accessed_of_step {input : Mining.State.Input ι}
    (stepped : state.step getEpochNumber input = some next)
    (other : ∀ happening, input ≠ .happen happening) : Accessed state next := by
  have still : ∀ {later : Mining.State ι}, later.published = state.published →
      later.script = state.script → later.threads = state.threads → Accessed state later := by
    intro later published script threads
    constructor
    · rw [published]
      exact fun _ _ => id
    · rw [published, script]
    · rw [published, threads]
      exact id
  cases Mining.State.taken_of_step stepped with
  | happen happening => exact absurd rfl (other happening)
  | event op rest script idle =>
      have effect := @Mining.State.access_spec ι getEpochNumber { state with script := rest } op
      have threads := @Mining.State.access_threads ι { state with script := rest }
        getEpochNumber op
      have grows : Grows state.published (state.published.apply op) :=
        fun _ _ => PublishedJobs.getElem?_apply op
      constructor
      · rw [effect.1]
        exact grows
      · rw [effect.1, effect.2, script, List.foldl_cons]
      · rw [effect.1, threads]
        exact fun engaged miner => (engaged miner).grow grows
  | request ref dataset taken => exact still rfl rfl rfl
  | builder ref index dataset taken => exact still rfl rfl rfl
  | miner miner next access =>
      obtain ⟨published, script, -⟩ := access.frame
      constructor
      · rw [published]
        exact fun _ _ => id
      · rw [published, script]
      · exact Mining.State.engaged_minerStep stepped

end Access

/-! ## The process -/

/-- Between two steps, what is published is on its way to the threads, and every
queued result is a share. -/
structure Consistent (env : Env Engine ι) (state : State Engine ι) : Prop where
  loop : (EventLoop.machine env.loop).Reachable state.sys
  published : state.mining.script.foldl PublishedJobs.apply state.mining.published =
    state.sys.app.executor.published
  engaged : ∀ miner, Engaged state.mining.published (state.mining.threads miner)
  queued : ∀ miner, ∀ found ∈ state.resultQ miner, Sound env.hashes state.mining.published found

namespace Consistent

variable [DecidableEq ι] {env : Env Engine ι} {state next : State Engine ι}

omit [DecidableEq ι] in
theorem initial (initial : State.Initial state) : Consistent env state := by
  obtain ⟨miners, seed, mining⟩ := initial.mining
  constructor
  case loop => exact .start initial.sys
  case published =>
    rw [mining, initial.sys.jobIdle]
    rfl
  case engaged =>
    intro miner begun
    rw [mining] at begun
    simp [Mining.State.start, Mining.Thread.start] at begun
  case queued =>
    intro miner found member
    rw [initial.resultQ miner] at member
    cases member

omit [DecidableEq ι] in
theorem called (consistent : Consistent env state) {input : EventLoop.Input}
    (called : State.Called env input state next)
    (queued : ∀ miner, ∀ found ∈ next.resultQ miner, found ∈ state.resultQ miner) :
    Consistent env next := by
  have attached : Attached env.loop state.sys := EventLoop.reachable_attached consistent.loop
  obtain ⟨⟨newer, happenings, scripted⟩, -⟩ :=
    (EventLoop.footprint_turn env.loop).step attached called.loop
  have idle := consistent.published
  rw [called.script, List.foldl_nil] at idle
  constructor
  case loop => exact consistent.loop.step called.loop
  case published =>
    rw [called.mining, newEntries_eq scripted.log, scripted.published, idle]
  case engaged =>
    rw [called.mining]
    exact consistent.engaged
  case queued =>
    rw [called.mining]
    exact fun miner found member => consistent.queued miner found (queued miner found member)

/-- What a miner puts into its queue is a share for its job. -/
theorem queuesAfter (consistent : Consistent env state) (input : Mining.State.Input ι) (miner : ι)
    (found : Found) (member : found ∈ state.queuesAfter env input miner) :
    Sound env.hashes state.mining.published found := by
  unfold State.queuesAfter at member
  split at member
  case h_2 => exact consistent.queued miner found member
  case h_1 worker =>
    dsimp only at member
    split at member
    case isFalse => exact consistent.queued miner found member
    case isTrue hashing =>
      by_cases same : miner = worker
      · subst same
        rw [Function.update_self] at member
        rcases List.mem_append.mp member with earlier | now
        · exact consistent.queued miner found earlier
        · obtain ⟨job, isJob, works⟩ := consistent.engaged miner (by simp [hashing])
          obtain ⟨position, genuine⟩ := works.finds_genuine hashing now
          exact ⟨job, position ▸ isJob, genuine⟩
      · rw [Function.update_of_ne same] at member
        exact consistent.queued miner found member

theorem step (consistent : Consistent env state) {input : Input ι}
    (taken : State.Taken env state next input) : Consistent env next := by
  cases taken with
  | callback input other called resultQ sent =>
      apply consistent.called called
      rw [resultQ]
      exact fun _ _ => id
  | drain miner input found rest queue called resultQ sent =>
      apply consistent.called called
      intro other result member
      rw [resultQ] at member
      by_cases same : other = miner
      · subst same
        rw [Function.update_self] at member
        rw [queue]
        exact .tail _ member
      · rwa [Function.update_of_ne same] at member
  | access input other taken sys resultQ sent =>
      have accessed := accessed_of_step taken other
      constructor
      case loop => exact sys ▸ consistent.loop
      case published => rw [accessed.published, consistent.published, sys]
      case engaged => exact accessed.engaged consistent.engaged
      case queued =>
        intro miner found member
        rw [resultQ] at member
        exact (consistent.queuesAfter input miner found member).grow accessed.grows

end Consistent

theorem reachable_consistent [DecidableEq ι] {env : Env Engine ι}
    {Allowed : State Engine ι → Input ι → State Engine ι → Prop} {state : State Engine ι}
    (reachable : (machine env).ReachableWhen Allowed state) : Consistent env state :=
  reachable.invariant (fun _ => Consistent.initial)
    fun _ _ _ _ consistent stepped _ => consistent.step (State.taken_of_step stepped)

/-! ## Results sent -/

/-- A submit line is formatted for a result from a queue. -/
structure Sends (state next : State Engine ι) (found : Found) : Prop where
  hasJob : state.sys.app.pool.state = .hasJob
  sent : next.sent = found :: state.sent
  submitted : submitted next.sys.app.log =
    (found.result, .share found.result :: state.sys.app.log) :: submitted state.sys.app.log

/-- A step sends the front of the queue that it drains, or nothing. -/
theorem sends_of_step [DecidableEq ι] {env : Env Engine ι} {state next : State Engine ι}
    {input : Input ι} (consistent : Consistent env state)
    (taken : State.Taken env state next input) :
    (next.sent = state.sent ∧ submitted next.sys.app.log = submitted state.sys.app.log ∧
        (state.sys.app.pool.state = .hasJob → ∀ miner begun, input ≠ .drain miner begun)) ∨
      ∃ miner begun found rest, input = .drain miner begun ∧
        state.resultQ miner = found :: rest ∧ Sends state next found := by
  cases taken with
  | callback input other called resultQ sent =>
      have attached : Attached env.loop state.sys := EventLoop.reachable_attached consistent.loop
      exact .inl ⟨sent, EventLoop.step_submits_nothing attached called.loop other, fun _ => nofun⟩
  | drain miner input found rest queue called resultQ sent =>
      have submits := EventLoop.step_submits called.loop rfl
      by_cases hasJob : state.sys.app.pool.state = .hasJob
      · rw [if_pos hasJob] at submits sent
        exact .inr ⟨miner, input, found, rest, rfl, queue, hasJob, sent, submits⟩
      · rw [if_neg hasJob] at submits sent
        exact .inl ⟨sent, submits, fun has => absurd has hasJob⟩
  | access input other taken sys resultQ sent => exact .inl ⟨sent, by rw [sys], fun _ => nofun⟩

/-- The submit lines are those of the results sent, one by one, and each result stands
in a relation to the log before its line. -/
def SentAs (Relates : List Effect → Found → Prop) (state : State Engine ι) : Prop :=
  List.Forall₂ (fun line found => line.1 = found.result ∧ Relates line.2 found)
    (submitted state.sys.app.log) state.sent

/-- What relates each result to the log at the moment at which it is sent, relates all
of them in the end. The induction is on the run. -/
theorem sentAs_of_run [DecidableEq ι] {env : Env Engine ι}
    {Allowed : State Engine ι → Input ι → State Engine ι → Prop}
    {Relates : List Effect → Found → Prop}
    (each : ∀ before miner input after found rest, Consistent env before →
      before.resultQ miner = found :: rest → before.sys.app.pool.state = .hasJob →
      Allowed before (.drain miner input) after →
      Relates (.share found.result :: before.sys.app.log) found)
    {state : State Engine ι} (reachable : (machine env).ReachableWhen Allowed state) :
    SentAs Relates state := by
  refine reachable.invariant ?_ ?_
  · intro start initial
    unfold SentAs
    rw [initial.sys.logEmpty, initial.sent]
    exact .nil
  · intro before input after reachable sentAs stepped allowed
    have consistent := reachable_consistent reachable
    unfold SentAs at sentAs ⊢
    rcases sends_of_step consistent (State.taken_of_step stepped) with
      ⟨sent, lines, -⟩ | ⟨miner, begun, found, rest, rfl, queue, sends⟩
    · rw [sent, lines]
      exact sentAs
    · rw [sends.sent, sends.submitted]
      have relates := each before miner begun after found rest consistent queue sends.hasJob allowed
      exact .cons ⟨rfl, relates⟩ sentAs

theorem SentAs.of_line {Relates : List Effect → Found → Prop} {state : State Engine ι}
    (sentAs : SentAs Relates state) {line : MinerResult × List Effect}
    (member : line ∈ submitted state.sys.app.log) :
    ∃ found, line.1 = found.result ∧ Relates line.2 found := by
  unfold SentAs at sentAs
  generalize submitted state.sys.app.log = lines at sentAs member
  generalize state.sent = results at sentAs
  induction sentAs with
  | nil => cases member
  | @cons line found lines sent relates _ inductionHypothesis =>
      rcases List.mem_cons.mp member with rfl | later
      · exact ⟨found, relates⟩
      · exact inductionHypothesis later

/-- A queued result is a share for a job that the log has published by then. -/
theorem Consistent.sound {env : Env Engine ι} {state : State Engine ι}
    (consistent : Consistent env state) {miner : ι} {found : Found} {rest : List Found}
    (queue : state.resultQ miner = found :: rest) :
    Sound env.hashes (publishedBy state.sys.app.log) found := by
  have sound := consistent.queued miner found (queue ▸ .head _)
  rw [← EventLoop.reachable_published consistent.loop, ← consistent.published]
  exact sound.grow fun _ _ => PublishedJobs.getElem?_foldl_apply _

/-! ## Genuine shares -/

/-- In every run, each submit line is that of a share for a job published before: it
carries the id of the job, the bytes of the nonce as they stood in the hashed blob, and
the hash, which meets the target of the job. -/
theorem submitted_shares_genuine [DecidableEq ι] (env : Env Engine ι) (state : State Engine ι)
    (reachable : (machine env).Reachable state) (newer older : List Effect) (callId : UInt32)
    (res : MinerResult) (split : state.sys.app.log = newer ++ .submit callId res :: older) :
    ∃ job ∈ (publishedBy older).jobs, Genuine env.hashes job res ∧
      ∀ poolMinerId, EventLoop.submitLine poolMinerId res callId =
        EventLoop.lineText (cString poolMinerId) (cString job.id.cells)
          (EventLoop.hexText (le32 res.nonce)) (EventLoop.hexText res.resHash.cells)
          (EventLoop.decimal callId) := by
  have sentAs : SentAs (fun older => Sound env.hashes (publishedBy older)) state := by
    apply sentAs_of_run _ reachable
    exact fun _ _ _ _ _ _ consistent queue _ _ => consistent.sound queue
  obtain ⟨found, same, job, isJob, genuine⟩ := sentAs.of_line (EventLoop.mem_submitted split)
  rw [← same] at genuine
  refine ⟨job, List.mem_of_getElem? isJob, genuine, fun poolMinerId => ?_⟩
  rw [EventLoop.submitLine_eq, genuine.id]

/-! ## A first share -/

/-- A process before its first callback. -/
def State.start (miners : ι → Mining.CpuMiner) (seed : V32) : State Unit ι where
  sys := .start
  mining := .start miners seed
  resultQ := fun _ => []
  sent := []

theorem State.start_initial (miners : ι → Mining.CpuMiner) (seed : V32) :
    State.Initial (State.start miners seed) where
  sys := EventLoop.Sys.start_initial
  mining := Mining.State.start_initial miners seed
  resultQ := fun _ => rfl
  sent := rfl

/-- One miner, whose hashes meet every target. -/
def Env.sample : Env Unit Unit where
  loop := .retargeting
  hashes := ⟨fun _ _ => default, fun _ => default, fun _ _ _ _ => default⟩
  thdId := fun _ => 0

/-- The accesses of a callback that accepted a job, with the given numbers of accesses
in its requests to the two datasets. -/
def publication (randomx progpow : Nat) : List (Input ι) :=
  List.replicate 3 (.access .event) ++
    List.replicate randomx (.access (.request .randomxDataset)) ++ [.access .event] ++
    List.replicate progpow (.access (.request .progpowDataset)) ++ [.access .event]

/-- The miner is about to hash for the first job. -/
def firstIteration : List (Input Unit) :=
  EventLoop.sampleSession.map .callback ++ publication 5 4 ++
    List.replicate 6 (.access (.builder .randomxDataset 0)) ++
    List.replicate 5 (.access (.miner ()))

def firstShare : List (Input Unit) :=
  firstIteration ++ [.access (.miner ()), .drain () (EventLoop.Event.heartbeat.at 20100)]

theorem submitted_shares_genuine_firstShare :
    ∃ state : State Unit Unit, (machine .sample).Reachable state ∧
      ∃ newer callId res older, state.sys.app.log = newer ++ .submit callId res :: older ∧
        ∃ job ∈ (publishedBy older).jobs, Genuine Env.sample.hashes job res ∧
          ∀ poolMinerId, EventLoop.submitLine poolMinerId res callId =
            EventLoop.lineText (cString poolMinerId) (cString job.id.cells)
              (EventLoop.hexText (le32 res.nonce)) (EventLoop.hexText res.resHash.cells)
              (EventLoop.decimal callId) := by
  have executed := Machine.execute_reachable
    (State.start_initial (fun _ : Unit => .rxCpuMiner) default) (State.step .sample) firstShare
    (fun state => state.sys.app.log.any EventLoop.Effect.isSubmit = true) (by decide +kernel)
  generalize Machine.execute _ _ _ = state at executed
  obtain ⟨reachable, submits⟩ := executed
  obtain ⟨effect, member, isSubmit⟩ := List.any_eq_true.mp submits
  obtain ⟨newer, older, split⟩ := List.append_of_mem member
  cases effect with
  | submit callId res =>
      exact ⟨state, reachable, newer, callId, res, older, split,
        submitted_shares_genuine .sample state reachable newer older callId res split⟩
  | _ => cases isSubmit

end EpicMiner.Process
