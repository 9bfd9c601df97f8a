import EpicMiner.Library.Machine
import EpicMiner.Mining.Dataset
import EpicMiner.Mining.Loop
import Mathlib.Logic.Function.Basic

/-!
Owns the system of event loop, builder threads and miner threads around the
shared memory: the published jobs, the nonce counter and the two datasets. A step
is one access of one thread; any order of steps is a run.
-/

namespace EpicMiner.Mining

open EpicMiner.Library
open EpicMiner.Data

/-! ## State -/

/-- What names the contents of a dataset. -/
abbrev Key : DatasetRef → Type
  | .randomxDataset => V32
  | .progpowDataset => UInt64

def sourceOf : (ref : DatasetRef) → DatasetClass (Key ref)
  | .randomxDataset => rxDataset
  | .progpowDataset => ppDataset

inductive MiningEvent (ι : Type) where
  | storeNonce
  /-- A miner obtained a chunk for the job at a position. -/
  | claim (miner : ι) (job : Nat) (chunk : UInt32)
  /-- A miner hashed a nonce for the job at a position. -/
  | hash (miner : ι) (job : Nat) (nonce : UInt32)
deriving DecidableEq

/-- The shared memory with all threads. `script` is what the event loop is in the
middle of, `nonce` the counter in the pool's job; the log has its latest entry
first. -/
structure State (ι : Type) where
  published : PublishedJobs
  nonce : UInt32
  datasets : (ref : DatasetRef) → Dataset ι (Key ref)
  script : List SharedOp
  threads : ι → Thread
  log : List (MiningEvent ι)

namespace State

variable {ι : Type} [DecidableEq ι] (getEpochNumber : Int32 → Int32)

def currentJob (state : State ι) : MinerJob :=
  state.published.currentJob

def withDataset (ref : DatasetRef) (dataset : Dataset ι (Key ref)) (state : State ι) : State ι :=
  { state with datasets := Function.update state.datasets ref dataset }

def withThread (miner : ι) (thread : Thread) (state : State ι) : State ι :=
  { state with threads := Function.update state.threads miner thread }

def record (event : MiningEvent ι) (state : State ι) : State ι :=
  { state with log := event :: state.log }

@[simp] theorem withThread_log (miner : ι) (thread : Thread) (state : State ι) :
    (state.withThread miner thread).log = state.log := rfl

omit [DecidableEq ι] in
@[simp] theorem record_log (event : MiningEvent ι) (state : State ι) :
    (state.record event).log = event :: state.log := rfl

/-! ## Event loop -/

def NoRequest (state : State ι) : Prop :=
  (state.datasets .randomxDataset).pending.isEmpty = true ∧
    (state.datasets .progpowDataset).pending.isEmpty = true

instance (state : State ι) : Decidable state.NoRequest := by
  unfold NoRequest
  infer_instance

def access (op : SharedOp) (state : State ι) : State ι :=
  match op with
  | .storeNonce => { state with nonce := 0 }.record .storeNonce
  | .adjustToSeed seed =>
      state.withDataset .randomxDataset ((state.datasets .randomxDataset).adjust seed)
  | .adjustToBlock height =>
      state.withDataset .progpowDataset
        ((state.datasets .progpowDataset).adjust (epochOf getEpochNumber height))
  | .publish job => { state with published := state.published.publish job }
  | .publishIdle =>
      if state.currentJob.type ≠ .idle then
        { state with published := state.published.publish .idle }
      else state

/-- The event loop's next access outside of a request. -/
def eventStep (state : State ι) : Option (State ι) :=
  match state.script with
  | [] => none
  | op :: rest =>
      if state.NoRequest then some ({ state with script := rest }.access getEpochNumber op)
      else none

/-! ## Miners -/

end State

/-- `thread_main` loads the current job and copies it. -/
def Thread.load (published : PublishedJobs) (thread : Thread) : Thread :=
  { thread with
    lastJob := published.current
    currentJob := published.currentJob
    phase :=
      if published.currentJob.type = thread.miner.powType then .checkReady else .idle }

namespace State

variable {ι : Type} [DecidableEq ι] (getEpochNumber : Int32 → Int32)

/-- A miner's next access. There is none when it waits for the mutex, and none
either when it would leave defined behaviour. -/
def minerStep (miner : ι) (state : State ι) : Option (State ι) :=
  let thread := state.threads miner
  match thread.phase with
  | .load => some (state.withThread miner (thread.load state.published))
  | .idle =>
      if state.published.current = thread.lastJob then some state
      else some (state.withThread miner (thread.goto .load))
  | .checkReady => do
      let ref ← thread.currentJob.ds
      if (state.datasets ref).readyId = thread.currentJob.datasetId then
        some (state.withThread miner (thread.goto .lockShared))
      else some (state.withThread miner (thread.goto .checkJob))
  | .checkJob =>
      if state.published.current = thread.lastJob then
        some (state.withThread miner (thread.goto .checkReady))
      else some (state.withThread miner (thread.goto .load))
  | .lockShared => do
      let ref ← thread.currentJob.ds
      let dataset ← (state.datasets ref).lockShared miner
      if thread.miner.Fits thread.currentJob then
        some
          ((state.withDataset ref dataset).withThread miner ((thread.withNonce 0).goto .loopHead))
      else none
  | .loopHead =>
      if state.published.current = thread.lastJob then
        some (state.withThread miner (thread.goto .nextNonce))
      else some (state.withThread miner (thread.goto .unlockShared))
  | .nextNonce =>
      if thread.Claims then
        if thread.currentJob.sharesNonce then
          some
            (({ state with nonce := state.nonce + nonceChunk }.withThread miner
              (thread.claim state.nonce)).record (.claim miner thread.lastJob state.nonce))
        else none
      else some (state.withThread miner thread.increment)
  | .hash =>
      some ((state.withThread miner (thread.goto .loopHead)).record
        (.hash miner thread.lastJob thread.nonce))
  | .unlockShared => do
      let ref ← thread.currentJob.ds
      some ((state.withDataset ref ((state.datasets ref).unlockShared miner)).withThread miner
        (thread.goto .load))

inductive MinerAccess (state : State ι) (miner : ι) : State ι → Prop
  | load : (state.threads miner).phase = .load →
      MinerAccess state miner (state.withThread miner ((state.threads miner).load state.published))
  | rest : (state.threads miner).phase = .idle → MinerAccess state miner state
  | wait (phase : Phase) : (state.threads miner).phase ∈ [.idle, .checkReady, .checkJob] →
      phase ∈ [.load, .checkReady, .checkJob] →
      MinerAccess state miner (state.withThread miner ((state.threads miner).goto phase))
  | ready (ref : DatasetRef) : (state.threads miner).phase = .checkReady →
      (state.threads miner).currentJob.ds = some ref →
      (state.datasets ref).readyId = (state.threads miner).currentJob.datasetId →
      MinerAccess state miner (state.withThread miner ((state.threads miner).goto .lockShared))
  | lockShared (ref : DatasetRef) : (state.threads miner).phase = .lockShared →
      (state.threads miner).currentJob.ds = some ref → (state.datasets ref).holder = none →
      (state.threads miner).miner.Fits (state.threads miner).currentJob →
      MinerAccess state miner
        ((state.withDataset ref
            { state.datasets ref with readers := miner :: (state.datasets ref).readers }).withThread
          miner (((state.threads miner).withNonce 0).goto .loopHead))
  | goOn : (state.threads miner).phase = .loopHead →
      state.published.current = (state.threads miner).lastJob →
      MinerAccess state miner (state.withThread miner ((state.threads miner).goto .nextNonce))
  | stop : (state.threads miner).phase = .loopHead →
      state.published.current ≠ (state.threads miner).lastJob →
      MinerAccess state miner (state.withThread miner ((state.threads miner).goto .unlockShared))
  | claim : (state.threads miner).phase = .nextNonce → (state.threads miner).Claims →
      MinerAccess state miner
        (({ state with nonce := state.nonce + nonceChunk }.withThread miner
          ((state.threads miner).claim state.nonce)).record
            (.claim miner (state.threads miner).lastJob state.nonce))
  | increment : (state.threads miner).phase = .nextNonce → ¬ (state.threads miner).Claims →
      MinerAccess state miner (state.withThread miner (state.threads miner).increment)
  | hash : (state.threads miner).phase = .hash →
      MinerAccess state miner
        ((state.withThread miner ((state.threads miner).goto .loopHead)).record
          (.hash miner (state.threads miner).lastJob (state.threads miner).nonce))
  | unlockShared (ref : DatasetRef) : (state.threads miner).phase = .unlockShared →
      (state.threads miner).currentJob.ds = some ref →
      MinerAccess state miner
        ((state.withDataset ref ((state.datasets ref).unlockShared miner)).withThread miner
          ((state.threads miner).goto .load))

theorem minerAccess_of_minerStep {state next : State ι} {miner : ι}
    (stepped : state.minerStep miner = some next) : MinerAccess state miner next := by
  unfold minerStep at stepped
  dsimp only at stepped
  split at stepped
  case h_1 phase =>
    cases stepped
    exact .load phase
  case h_2 phase =>
    split at stepped
    · cases stepped
      exact .rest phase
    · cases stepped
      exact .wait _ (by simp [phase]) (by simp)
  case h_3 phase =>
    obtain ⟨ref, ds, stepped⟩ := Option.bind_eq_some_iff.mp stepped
    split at stepped
    · cases stepped
      exact .ready ref phase ds (by assumption)
    · cases stepped
      exact .wait _ (by simp [phase]) (by simp)
  case h_4 phase =>
    split at stepped <;> cases stepped <;> exact .wait _ (by simp [phase]) (by simp)
  case h_5 phase =>
    obtain ⟨ref, ds, stepped⟩ := Option.bind_eq_some_iff.mp stepped
    obtain ⟨dataset, locked, stepped⟩ := Option.bind_eq_some_iff.mp stepped
    unfold Dataset.lockShared at locked
    split at locked
    case isFalse => cases locked
    case isTrue free =>
      cases locked
      split at stepped
      · cases stepped
        exact .lockShared ref phase ds free (by assumption)
      · cases stepped
  case h_6 phase =>
    split at stepped
    · cases stepped
      exact .goOn phase (by assumption)
    · cases stepped
      exact .stop phase (by assumption)
  case h_7 phase =>
    split at stepped
    · split at stepped
      · cases stepped
        exact .claim phase (by assumption)
      · cases stepped
    · cases stepped
      exact .increment phase (by assumption)
  case h_8 phase =>
    cases stepped
    exact .hash phase
  case h_9 phase =>
    obtain ⟨ref, ds, stepped⟩ := Option.bind_eq_some_iff.mp stepped
    cases stepped
    exact .unlockShared ref phase ds

/-! ## The machine -/

/-- Whose access is next. -/
inductive Input (ι : Type) where
  /-- The event loop begins with something. -/
  | happen (happening : Happening)
  | event
  | request (ref : DatasetRef)
  | builder (ref : DatasetRef) (index : Nat)
  | miner (miner : ι)
deriving DecidableEq

/-- One access of one thread. -/
def step (state : State ι) : Input ι → Option (State ι)
  | .happen happening =>
      if state.script.isEmpty ∧ state.NoRequest then
        some { state with script := happening.script getEpochNumber }
      else none
  | .event => state.eventStep getEpochNumber
  | .request ref =>
      ((state.datasets ref).requestStep (sourceOf ref)).map fun dataset =>
        state.withDataset ref dataset
  | .builder ref index =>
      ((state.datasets ref).builderStep (sourceOf ref) index).map fun dataset =>
        state.withDataset ref dataset
  | .miner miner => state.minerStep miner

inductive Taken (state : State ι) : Input ι → State ι → Prop
  | happen (happening : Happening) : state.script = [] → state.NoRequest →
      Taken state (.happen happening) { state with script := happening.script getEpochNumber }
  | event (op : SharedOp) (rest : List SharedOp) : state.script = op :: rest → state.NoRequest →
      Taken state .event ({ state with script := rest }.access getEpochNumber op)
  | request (ref : DatasetRef) (dataset : Dataset ι (Key ref)) :
      (state.datasets ref).requestStep (sourceOf ref) = some dataset →
      Taken state (.request ref) (state.withDataset ref dataset)
  | builder (ref : DatasetRef) (index : Nat) (dataset : Dataset ι (Key ref)) :
      (state.datasets ref).builderStep (sourceOf ref) index = some dataset →
      Taken state (.builder ref index) (state.withDataset ref dataset)
  | miner (miner : ι) (next : State ι) : state.MinerAccess miner next →
      Taken state (.miner miner) next

variable {getEpochNumber} in
theorem taken_of_step {state next : State ι} {input : Input ι}
    (stepped : state.step getEpochNumber input = some next) :
    state.Taken getEpochNumber input next := by
  cases input with
  | happen happening =>
      simp only [step] at stepped
      split at stepped
      · rename_i idle
        cases stepped
        exact .happen happening (List.isEmpty_iff.mp idle.1) idle.2
      · cases stepped
  | event =>
      simp only [step, eventStep] at stepped
      split at stepped
      · cases stepped
      · rename_i op rest script
        split at stepped
        · cases stepped
          exact .event op rest script (by assumption)
        · cases stepped
  | request ref =>
      obtain ⟨dataset, taken, rfl⟩ := Option.map_eq_some_iff.mp stepped
      exact .request ref dataset taken
  | builder ref index =>
      obtain ⟨dataset, taken, rfl⟩ := Option.map_eq_some_iff.mp stepped
      exact .builder ref index dataset taken
  | miner miner => exact .miner miner next (minerAccess_of_minerStep stepped)

/-- The state after the `push_idle_job` of `executor::run`. The seed of the
RandomX dataset has no initialiser. -/
def start (miners : ι → CpuMiner) (seed : V32) : State ι where
  published := .initial
  nonce := 0
  datasets
    | .randomxDataset => .start seed
    | .progpowDataset => .start 0
  script := []
  threads := fun miner => .start (miners miner)
  log := []

def Initial (state : State ι) : Prop :=
  ∃ miners seed, state = start miners seed

omit [DecidableEq ι] in
theorem start_initial (miners : ι → CpuMiner) (seed : V32) : Initial (start miners seed) :=
  ⟨miners, seed, rfl⟩

def machine : Machine (State ι) (Input ι) :=
  .ofPartial Initial (step getEpochNumber)

/-! ## Accepted jobs -/

/-- The event loop accepts a job, with the given numbers of accesses in its
requests to the two datasets. -/
def acceptance (job : PoolJob) (randomx progpow : Nat) : List (Input ι) :=
  [.happen (.accepted job), .event, .event, .event] ++
    List.replicate randomx (.request .randomxDataset) ++ [.event] ++
    List.replicate progpow (.request .progpowDataset) ++ [.event]

end State

/-- A job whose nonce stands in the second half of eight bytes. -/
def eightBytePoolJob (type : PowType) : PoolJob :=
  { PoolJob.zero with blobLen := 8, noncePos := 4, type := type }

/-- The first job is accepted, its dataset is built, and a miner claims its first
chunk. -/
def firstClaim : List (State.Input Unit) :=
  State.acceptance (eightBytePoolJob .randomx) 5 4 ++
    List.replicate 6 (.builder .randomxDataset 0) ++ List.replicate 5 (.miner ())

end EpicMiner.Mining
