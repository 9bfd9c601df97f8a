import EpicMiner.Data.Bytes

/-!
Owns the jobs of `job.hpp`: the pool's own job, the immutable copy handed to
the miners, and the executor's list of published jobs. Also owns the vocabulary
of the event loop's accesses to memory that the miner and dataset threads read.
-/

namespace EpicMiner.Data

open EpicMiner.Library

inductive PowType where
  | idle
  | randomx
  | progpow
  | cuckoo
deriving DecidableEq, Repr

def powTypeToStr : PowType → String
  | .randomx => "randomx"
  | .progpow => "progpow"
  | .cuckoo => "cuckoo"
  | .idle => "idle"

inductive MinerType where
  | randomxCpuMiner
  | progpowCpuMiner
  | progpowGpuMiner
deriving DecidableEq, Repr

/-- The two datasets of the executor, as targets of `miner_job::ds`. -/
inductive DatasetRef where
  | randomxDataset
  | progpowDataset
deriving DecidableEq, Repr

def invalidId : UInt64 := 0xffffffffffffffff

def invalidMinerId : UInt32 := 0xffffffff

structure PoolJob where
  id : Buffer 64
  blob : Buffer 512
  randomxSeed : V32
  height : UInt32
  blobLen : UInt32
  noncePos : UInt32
  target : UInt32
  nonce : UInt32
  type : PowType
deriving DecidableEq

/-- `pool_job` over zeroed memory. -/
def PoolJob.zero : PoolJob where
  id := default
  blob := default
  randomxSeed := default
  height := 0
  blobLen := 0
  noncePos := 0
  target := 0
  nonce := 0
  type := .idle

def PoolJob.reset (job : PoolJob) : PoolJob :=
  { job with nonce := 0, blobLen := 0 }

/-- `miner_job`. `sharesNonce` says that the pointer `nonce` is not null; it
then points to the counter inside the pool's own job. -/
structure MinerJob where
  id : Buffer 64
  blob : Buffer 512
  blobLen : UInt32
  noncePos : UInt32
  target : UInt32
  ds : Option DatasetRef
  datasetId : UInt64
  height : UInt32
  sharesNonce : Bool
  type : PowType
deriving DecidableEq

/-- The default constructor. The members it leaves uninitialised are never read
from an idle job. -/
def MinerJob.idle : MinerJob where
  id := default
  blob := default
  blobLen := 0
  noncePos := 0
  target := 0
  ds := none
  datasetId := 0
  height := 0
  sharesNonce := false
  type := .idle

/-- `miner_job(pool_job&, dataset*, uint64_t)`. -/
def MinerJob.ofPoolJob (job : PoolJob) (ds : Option DatasetRef) (datasetId : UInt64) :
    MinerJob where
  id := job.id
  blob := job.blob
  blobLen := job.blobLen
  noncePos := job.noncePos
  target := job.target
  ds := ds
  datasetId := datasetId
  height := job.height
  sharesNonce := true
  type := job.type

/-- `ethash::get_epoch_number` after the conversions around its call: the
height becomes an `int`, the epoch a `uint64_t`. -/
def epochOf (getEpochNumber : Int32 → Int32) (height : UInt32) : UInt64 :=
  (getEpochNumber height.toInt32).toInt64.toUInt64

def ethashEpoch (height : Int32) : Int32 :=
  height / 30000

/-- The job that `executor::on_pool_new_job` publishes. -/
def MinerJob.published (getEpochNumber : Int32 → Int32) (job : PoolJob) : MinerJob :=
  match job.type with
  | .randomx => .ofPoolJob job (some .randomxDataset) job.randomxSeed.getId
  | .progpow => .ofPoolJob job (some .progpowDataset) (epochOf getEpochNumber job.height)
  | _ => .ofPoolJob job none 0

/-! ## Published jobs -/

/-- `executor::miner_jobs` with `executor::current_job`. Jobs stand in the order
of their creation, so a position is the address of a job for ever. -/
structure PublishedJobs where
  jobs : List MinerJob
  current : Nat
  current_lt : current < jobs.length

namespace PublishedJobs

def currentJob (published : PublishedJobs) : MinerJob :=
  published.jobs.get ⟨published.current, published.current_lt⟩

/-- `miner_jobs.emplace_front(..); current_job = &miner_jobs.front()`. -/
def publish (published : PublishedJobs) (job : MinerJob) : PublishedJobs where
  jobs := published.jobs ++ [job]
  current := published.jobs.length
  current_lt := by simp

/-- The list after the `push_idle_job` of `executor::run`. -/
def initial : PublishedJobs where
  jobs := [MinerJob.idle]
  current := 0
  current_lt := by simp

@[simp] theorem currentJob_publish (published : PublishedJobs) (job : MinerJob) :
    (published.publish job).currentJob = job := by
  simp [currentJob, publish]

@[simp] theorem currentJob_initial : initial.currentJob = MinerJob.idle := rfl

end PublishedJobs

/-! ## Shared memory -/

/-- Accesses of the event loop to memory that other threads read. -/
inductive SharedOp where
  /-- A store of 0 to `my_job.nonce`. -/
  | storeNonce
  | adjustToSeed (seed : V32)
  | adjustToBlock (height : UInt32)
  | publish (job : MinerJob)
  /-- `on_pool_disconnect`: an idle job becomes the current one, unless the
  current one is idle already. -/
  | publishIdle
deriving DecidableEq

/-- What an access makes of the published jobs. -/
def PublishedJobs.apply (published : PublishedJobs) : SharedOp → PublishedJobs
  | .publish job => published.publish job
  | .publishIdle =>
      if published.currentJob.type ≠ .idle then published.publish .idle else published
  | _ => published

namespace PublishedJobs

variable {published : PublishedJobs}

theorem getElem?_current : published.jobs[published.current]? = some published.currentJob :=
  List.getElem?_eq_getElem published.current_lt

theorem apply_cases (op : SharedOp) :
    published.apply op = published ∨ ∃ job, published.apply op = published.publish job := by
  cases op with
  | publish job => exact .inr ⟨job, rfl⟩
  | publishIdle =>
      by_cases mining : published.currentJob.type ≠ .idle
      · exact .inr ⟨.idle, if_pos mining⟩
      · exact .inl (if_neg mining)
  | _ => exact .inl rfl

theorem getElem?_apply {position : Nat} {job : MinerJob} (op : SharedOp)
    (found : published.jobs[position]? = some job) :
    (published.apply op).jobs[position]? = some job := by
  rcases apply_cases op with same | ⟨added, same⟩
  · rw [same]
    exact found
  · rw [same]
    exact List.getElem?_append_left (List.getElem?_eq_some_iff.mp found).1 ▸ found

theorem getElem?_foldl_apply {position : Nat} {job : MinerJob} (ops : List SharedOp)
    (found : published.jobs[position]? = some job) :
    (ops.foldl apply published).jobs[position]? = some job := by
  induction ops generalizing published with
  | nil => exact found
  | cons op rest inductionHypothesis => exact inductionHypothesis (getElem?_apply op found)

theorem current_apply (op : SharedOp) (last : published.current + 1 = published.jobs.length) :
    (published.apply op).current + 1 = (published.apply op).jobs.length := by
  rcases apply_cases op with same | ⟨added, same⟩
  · rw [same]
    exact last
  · rw [same]
    simp [publish]

theorem currentJob_publishIdle : (published.apply .publishIdle).currentJob.type = .idle := by
  unfold apply
  dsimp only
  split
  · rw [currentJob_publish]
    rfl
  · rename_i idle
    exact not_not.mp idle

/-- Behind a job that is mined stands an idle one, if the last job is idle. -/
theorem exists_idle_behind (last : published.current + 1 = published.jobs.length)
    (idle : published.currentJob.type = .idle) {position : Nat} {job : MinerJob}
    (found : published.jobs[position]? = some job) (mines : job.type ≠ .idle) :
    ∃ later ∈ published.jobs.drop (position + 1), later.type = .idle := by
  have bound : position < published.jobs.length := (List.getElem?_eq_some_iff.mp found).1
  have current : published.jobs[published.current]? = some published.currentJob :=
    getElem?_current
  have behind : position < published.current := by
    by_contra notBehind
    have same : position = published.current := by omega
    rw [same, current] at found
    cases found
    exact mines idle
  refine ⟨published.currentJob, ?_, idle⟩
  rw [List.mem_iff_getElem?]
  refine ⟨published.current - (position + 1), ?_⟩
  rw [List.getElem?_drop, ← current]
  congr 1
  omega

end PublishedJobs

/-- What the event loop does to the memory that other threads read, as a whole:
the scripts of the paths through `process_pool_job`, `net_on_error` and
`net_on_close`. -/
inductive Happening where
  /-- A job message was rejected after the reset of `my_job`. -/
  | rejected
  /-- A job message was accepted; `my_job` is then the given job. -/
  | accepted (job : PoolJob)
  | netOnError
  | netOnClose
deriving DecidableEq

def Happening.script (getEpochNumber : Int32 → Int32) : Happening → List SharedOp
  | .rejected => [.storeNonce]
  | .accepted job =>
      [.storeNonce, .storeNonce, .adjustToSeed job.randomxSeed, .adjustToBlock job.height,
        .publish (.published getEpochNumber job)]
  | .netOnError => [.storeNonce]
  | .netOnClose => [.storeNonce, .publishIdle]

end EpicMiner.Data
