import EpicMiner.EventLoop.Filling
import EpicMiner.EventLoop.Messages

/-!
Owns the bounds on the blob of an accepted job, on which the miners' pointer
arithmetic rests: the nonce pointer of `randomx_loop`, the four bytes before it
and the length given to `keccak256` in `progpow_loop`.
-/

namespace EpicMiner.EventLoop

open EpicMiner.Library
open EpicMiner.Library.Program
open EpicMiner.Data

/-- Every access of a miner to the blob of `job` stays inside it, and no length
computed from it wraps. -/
def BlobInBounds (job : MinerJob) : Prop :=
  4 ≤ job.blobLen.toNat ∧ job.blobLen.toNat ≤ 512 ∧
    job.noncePos.toNat + 4 = job.blobLen.toNat ∧
    (job.type = .progpow → 8 ≤ job.blobLen.toNat ∧ 4 ≤ job.noncePos.toNat)

instance (job : MinerJob) : Decidable (BlobInBounds job) := by
  unfold BlobInBounds
  infer_instance

/-- The members of a job message that passed the first check. -/
structure JobMembers (param : Value) (params : JobParams) : Prop where
  jobid : param.getObjectMember (ascii "job_id") = .ok (some (.string params.jobid))
  blob : param.getObjectMember (ascii "blob") = .ok (some (.string params.blob))
  target : param.getObjectMember (ascii "target") = .ok (some (.string params.target))
  powAlgo : param.getObjectMember (ascii "pow_algo") = .ok (some (.string params.powAlgo))
  seedHash : param.getObjectMember (ascii "seed_hash") = .ok (some params.seedHash)
  height : param.getObjectMember (ascii "height") = .ok (some (.number (some params.height)))

theorem checkParams_found {param : Value} {params : JobParams}
    (found : checkParams param = .ok (some params)) : JobMembers param params := by
  cases param with
  | object members =>
      simp only [checkParams, Value.getObjectMember, bind, Except.bind] at found
      split at found
      · rename_i isJobid isBlob isTarget isAlgo isHeight isSeed
        cases found
        constructor <;> simp only [Value.getObjectMember, *]
      · cases found
  | _ => cases found

theorem powTypeOf_progpow (powAlgo : Bytes) :
    powTypeOf powAlgo = some .progpow ↔ strcmpEqual powAlgo (ascii "progpow") = true := by
  unfold powTypeOf
  by_cases isRandomx : strcmpEqual powAlgo (ascii "randomx") = true
  · have text : cString powAlgo = cString (ascii "randomx") := by
      simpa [strcmpEqual] using isRandomx
    simp only [strcmpEqual, text]
    decide
  · by_cases isProgpow : strcmpEqual powAlgo (ascii "progpow") = true
    · simp [isRandomx, isProgpow]
    · by_cases isCuckoo : strcmpEqual powAlgo (ascii "cuckoo") = true <;>
        simp [isRandomx, isProgpow, isCuckoo]

theorem published_indices (getEpochNumber : Int32 → Int32) (job : PoolJob) :
    (MinerJob.published getEpochNumber job).blobLen = job.blobLen ∧
      (MinerJob.published getEpochNumber job).noncePos = job.noncePos ∧
      (MinerJob.published getEpochNumber job).type = job.type ∧
      (MinerJob.published getEpochNumber job).blob = job.blob := by
  unfold MinerJob.published
  split <;> exact ⟨rfl, rfl, rfl, rfl⟩

/-- A length that `process_pool_job` accepts is in bounds exactly if four bytes
fit before its end, and eight for progpow: the subtraction that gives the nonce
position wraps on anything shorter. -/
theorem blobInBounds_iff {job : MinerJob} {length : Nat} (fits : length ≤ 512)
    (blobLen : job.blobLen = length.toUInt32) (noncePos : job.noncePos = length.toUInt32 - 4) :
    BlobInBounds job ↔ 4 ≤ length ∧ (job.type = .progpow → 8 ≤ length) := by
  have len : job.blobLen.toNat = length := by
    rw [blobLen]
    simp
    omega
  have pos : 4 ≤ length → job.noncePos.toNat = length - 4 := by
    intro enough
    have le : (4 : UInt32) ≤ length.toUInt32 := by
      rw [UInt32.le_iff_toNat_le]
      simp
      omega
    rw [noncePos, UInt32.toNat_sub_of_le _ _ le]
    simp
    omega
  unfold BlobInBounds
  constructor
  · rintro ⟨enough, -, -, progpow⟩
    rw [len] at enough
    exact ⟨enough, fun isProgpow => len ▸ (progpow isProgpow).1⟩
  · rintro ⟨enough, progpow⟩
    have at_ := pos enough
    refine ⟨by omega, by omega, by omega, fun isProgpow => ?_⟩
    have more := progpow isProgpow
    omega

/-- A job that `process_pool_job` accepts can be indexed by every miner exactly
if its blob string has 8 characters, and 16 for progpow. -/
theorem accepted_job_in_bounds_iff (config : Config) (param : Value) (app next : App)
    (accepted : (processPoolJob config param).run app = .ok (true, next)) :
    ∃ blob powAlgo, param.getObjectMember (ascii "blob") = .ok (some (.string blob)) ∧
      param.getObjectMember (ascii "pow_algo") = .ok (some (.string powAlgo)) ∧
      (BlobInBounds next.executor.published.currentJob ↔
        8 ≤ blob.length ∧ (strcmpEqual powAlgo (ascii "progpow") = true → 16 ≤ blob.length)) := by
  have outcome := (processPoolJob_ensures config param app).of_run accepted
  cases outcome with
  | accepted params job found filled =>
      have members := checkParams_found found
      refine ⟨params.blob, params.powAlgo, members.blob, members.powAlgo, ?_⟩
      have isFilled := filled_of_accepted filled
      have fits := isFilled.length
      have named := isFilled.type
      obtain ⟨blobLen, noncePos, type, -⟩ := published_indices config.getEpochNumber
        { finishJob params job with nonce := 0 }
      have current : (app.jobAccepted config
          { finishJob params job with nonce := 0 }).executor.published.currentJob =
          MinerJob.published config.getEpochNumber { finishJob params job with nonce := 0 } :=
        PublishedJobs.currentJob_publish _ _
      rw [current, blobInBounds_iff fits blobLen noncePos, type,
        ← powTypeOf_progpow, named]
      have isType : (finishJob params job).type = job.type := rfl
      simp only [isType, Option.some.injEq, workLen]
      constructor
      · rintro ⟨enough, progpow⟩
        exact ⟨by omega, fun isProgpow => by have := progpow isProgpow; omega⟩
      · rintro ⟨enough, progpow⟩
        exact ⟨by omega, fun isProgpow => by have := progpow isProgpow; omega⟩

theorem sample_job_in_bounds_iff :
    ∃ next, (processPoolJob (.ofRun (.ofTexts []) ethashEpoch) JobMessage.sample.params).run
        .start = .ok (true, next) ∧
      ∃ blob powAlgo,
        JobMessage.sample.params.getObjectMember (ascii "blob") = .ok (some (.string blob)) ∧
        JobMessage.sample.params.getObjectMember (ascii "pow_algo") =
          .ok (some (.string powAlgo)) ∧
        (BlobInBounds next.executor.published.currentJob ↔
          8 ≤ blob.length ∧
            (strcmpEqual powAlgo (ascii "progpow") = true → 16 ≤ blob.length)) :=
  ⟨_, rfl, accepted_job_in_bounds_iff _ _ _ _ rfl⟩

def emptyBlobMessage : JobMessage :=
  { JobMessage.sample with blob := [] }

/-- The empty blob is accepted, and the nonce position of its job wraps. -/
theorem empty_blob_accepted :
    ∃ next, (processPoolJob (.ofRun (.ofTexts []) ethashEpoch) emptyBlobMessage.params).run
        .start = .ok (true, next) ∧
      next.executor.published.currentJob.noncePos = 0xfffffffc ∧
      ¬ BlobInBounds next.executor.published.currentJob := by
  refine ⟨_, rfl, ?_, ?_⟩ <;> decide

end EpicMiner.EventLoop
