import EpicMiner.Data.Job

/-!
Owns the local state of a miner thread and one iteration of the two mining
loops: where each keeps its nonce, and how the next nonce is chosen.
-/

namespace EpicMiner.Mining

open EpicMiner.Library
open EpicMiner.Data

def nonceChunk : UInt32 := 16384

/-- The number of chunks in the range of a nonce, 2^18. -/
def counterChunks : Nat := 262144

/-- A nonce at which a chunk starts. -/
def Aligned (nonce : UInt32) : Prop :=
  nonce % nonceChunk = 0

instance (nonce : UInt32) : Decidable (Aligned nonce) := by
  unfold Aligned
  infer_instance

theorem aligned_iff (nonce : UInt32) : Aligned nonce ↔ nonce.toNat % 16384 = 0 := by
  simp [Aligned, nonceChunk, ← UInt32.toNat_inj]

theorem aligned_zero : Aligned 0 := rfl

theorem aligned_mul_nonceChunk (chunks : UInt32) : Aligned (chunks * nonceChunk) := by
  rw [aligned_iff]
  have value : (chunks * nonceChunk).toNat = chunks.toNat * 16384 % 4294967296 := by
    simp [nonceChunk]
  omega

theorem Aligned.next {nonce : UInt32} (aligned : Aligned nonce) : Aligned (nonce + nonceChunk) := by
  rw [aligned_iff] at *
  have value : (nonce + nonceChunk).toNat = (nonce.toNat + 16384) % 4294967296 := by
    simp [nonceChunk]
  omega

theorem Aligned.not_succ {nonce : UInt32} (aligned : Aligned nonce) : ¬ Aligned (nonce + 1) := by
  rw [aligned_iff] at *
  have value : (nonce + 1).toNat = (nonce.toNat + 1) % 4294967296 := by simp
  omega

inductive CpuMiner where
  | rxCpuMiner
  | ppCpuMiner
deriving DecidableEq, Repr

def CpuMiner.powType : CpuMiner → PowType
  | .rxCpuMiner => .randomx
  | .ppCpuMiner => .progpow

/-- What a miner thread does next. -/
inductive Phase where
  /-- `thread_main`: load the current job. -/
  | load
  /-- `idle_loop`: compare the current job. -/
  | idle
  /-- `dataset_check_loop`: compare `ready_id`. -/
  | checkReady
  /-- `dataset_check_loop`: compare the current job. -/
  | checkJob
  | lockShared
  /-- The loop condition: compare the current job. -/
  | loopHead
  | nextNonce
  | hash
  | unlockShared
deriving DecidableEq, Repr

/-- A miner thread: `last_job` as a position among the published jobs,
`current_job` as its copy, and the local `nonce_ctr` of `progpow_loop`. -/
structure Thread where
  miner : CpuMiner
  phase : Phase
  lastJob : Nat
  currentJob : MinerJob
  nonceCtr : UInt32
deriving DecidableEq

def Thread.start (miner : CpuMiner) : Thread where
  miner := miner
  phase := .load
  lastJob := 0
  currentJob := .idle
  nonceCtr := 0

/-! ## The nonce of a loop -/

/-- Where a loop keeps its nonce. -/
structure NonceCell where
  read : Thread → UInt32
  write : UInt32 → Thread → Thread

/-- `nonce_ptr` of `randomx_loop`, which points into the copy of the blob. -/
def randomxNonce : NonceCell where
  read := fun thread => thread.currentJob.blob.read32 thread.currentJob.noncePos.toNat
  write := fun nonce thread =>
    { thread with
      currentJob :=
        { thread.currentJob with
          blob := thread.currentJob.blob.write32 thread.currentJob.noncePos.toNat nonce } }

/-- `nonce_ctr` of `progpow_loop`. -/
def progpowNonce : NonceCell where
  read := Thread.nonceCtr
  write := fun nonce thread => { thread with nonceCtr := nonce }

def CpuMiner.nonce : CpuMiner → NonceCell
  | .rxCpuMiner => randomxNonce
  | .ppCpuMiner => progpowNonce

/-- The accesses of a loop to its copy of the blob stay inside it. -/
def CpuMiner.Fits : CpuMiner → MinerJob → Prop
  | .rxCpuMiner, job => job.noncePos.toNat + 4 ≤ 512
  | .ppCpuMiner, job =>
      4 ≤ job.noncePos.toNat ∧ job.noncePos.toNat ≤ 512 ∧ 8 ≤ job.blobLen.toNat ∧
        job.blobLen.toNat ≤ 520

instance (miner : CpuMiner) (job : MinerJob) : Decidable (miner.Fits job) := by
  cases miner <;> unfold CpuMiner.Fits <;> infer_instance

namespace Thread

def nonce (thread : Thread) : UInt32 :=
  thread.miner.nonce.read thread

def withNonce (nonce : UInt32) (thread : Thread) : Thread :=
  thread.miner.nonce.write nonce thread

def goto (phase : Phase) (thread : Thread) : Thread :=
  { thread with phase := phase }

/-- The test that makes the loop claim a new chunk. -/
def Claims (thread : Thread) : Prop :=
  Aligned thread.nonce

instance (thread : Thread) : Decidable thread.Claims := by
  unfold Claims
  infer_instance

/-- A chunk is claimed: `nonce = current_job.nonce->fetch_add(nonce_chunk)`. -/
def claim (counter : UInt32) (thread : Thread) : Thread :=
  (thread.withNonce counter).goto .hash

/-- The chunk goes on: `nonce++`. -/
def increment (thread : Thread) : Thread :=
  (thread.withNonce (thread.nonce + 1)).goto .hash

section Lemmas

variable (thread : Thread)

@[simp] theorem goto_phase (phase : Phase) : (thread.goto phase).phase = phase := rfl

@[simp] theorem goto_miner (phase : Phase) : (thread.goto phase).miner = thread.miner := rfl

@[simp] theorem goto_lastJob (phase : Phase) : (thread.goto phase).lastJob = thread.lastJob := rfl

@[simp] theorem goto_currentJob (phase : Phase) :
    (thread.goto phase).currentJob = thread.currentJob := rfl

@[simp] theorem goto_nonce (phase : Phase) : (thread.goto phase).nonce = thread.nonce := by
  cases thread with
  | mk miner => cases miner <;> rfl

@[simp] theorem withNonce_phase (nonce : UInt32) :
    (thread.withNonce nonce).phase = thread.phase := by
  cases thread with
  | mk miner => cases miner <;> rfl

@[simp] theorem withNonce_miner (nonce : UInt32) :
    (thread.withNonce nonce).miner = thread.miner := by
  cases thread with
  | mk miner => cases miner <;> rfl

@[simp] theorem withNonce_lastJob (nonce : UInt32) :
    (thread.withNonce nonce).lastJob = thread.lastJob := by
  cases thread with
  | mk miner => cases miner <;> rfl

theorem withNonce_currentJob (nonce : UInt32) :
    (thread.withNonce nonce).currentJob =
      { thread.currentJob with blob := (thread.withNonce nonce).currentJob.blob } := by
  cases thread with
  | mk miner => cases miner <;> rfl

theorem nonce_withNonce {thread : Thread}
    (inBounds : thread.miner = .rxCpuMiner → thread.currentJob.noncePos.toNat + 4 ≤ 512)
    (nonce : UInt32) : (thread.withNonce nonce).nonce = nonce := by
  cases thread with
  | mk miner =>
      cases miner with
      | rxCpuMiner => exact Buffer.read32_write32 _ _ _ (inBounds rfl)
      | ppCpuMiner => rfl

theorem fits_withNonce {nonce : UInt32} :
    (thread.withNonce nonce).miner.Fits (thread.withNonce nonce).currentJob ↔
      thread.miner.Fits thread.currentJob := by
  rw [withNonce_currentJob, withNonce_miner]
  cases thread with
  | mk miner => cases miner <;> rfl

end Lemmas

end Thread

theorem nonce_withNonce_of_fits {thread : Thread} (fits : thread.miner.Fits thread.currentJob)
    (nonce : UInt32) : (thread.withNonce nonce).nonce = nonce := by
  refine Thread.nonce_withNonce (fun isRx => ?_) nonce
  rw [isRx] at fits
  exact fits

end EpicMiner.Mining
