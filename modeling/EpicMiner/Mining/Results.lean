import EpicMiner.EventLoop.App
import EpicMiner.Mining.Machine
import Mathlib.Data.Nat.Digits.Defs

/-!
Owns what a miner finds: the hash of one iteration of its loop, the test against
the target, and the result that it queues. Each thread works on a copy of its job
in which at most the nonce differs.
-/

namespace EpicMiner.Mining

open EpicMiner.Library
open EpicMiner.Data
open EpicMiner.EventLoop (MinerResult)

variable {ι : Type}

/-! ## Hashes as numbers -/

/-- `get_work32` and `get_ethash_work32`: the first four bytes as a word, with its
bytes swapped. -/
def work32 (hash : V32) : UInt32 :=
  ofLe32 (le32 (hash.read32 0)).reverse

/-- The bytes of a hash as a number, the most significant one first. -/
def bigEndian (hash : V32) : Nat :=
  Nat.ofDigits 256 (hash.cells.reverse.map UInt8.toNat)

theorem toNat_ofLe32 (first second third fourth : UInt8) :
    (ofLe32 [first, second, third, fourth]).toNat =
      Nat.ofDigits 256 [first.toNat, second.toNat, third.toNat, fourth.toNat] := by
  have firstBound := first.toNat_lt
  have secondBound := second.toNat_lt
  have thirdBound := third.toNat_lt
  have fourthBound := fourth.toNat_lt
  simp only [ofLe32, Nat.toUInt32, UInt32.toNat_ofNat', Nat.ofDigits_cons, Nat.ofDigits_nil]
  omega

/-- The word is the leading digits of the number. -/
theorem bigEndian_eq (hash : V32) : ∃ low, low < Nat.pow 2 224 ∧
    bigEndian hash = low + Nat.pow 2 224 * (work32 hash).toNat := by
  obtain ⟨cells, sized⟩ := hash
  match cells, sized with
  | first :: second :: third :: fourth :: rest, sized =>
      have word : work32 ⟨first :: second :: third :: fourth :: rest, sized⟩ =
          ofLe32 [fourth, third, second, first] :=
        congrArg (fun bytes : Bytes => ofLe32 bytes.reverse)
          (le32_ofLe32 first second third fourth)
      have length : (rest.reverse.map UInt8.toNat).length = 28 := by
        simpa using sized
      have small := @Nat.ofDigits_lt_base_pow_length 256 (rest.reverse.map UInt8.toNat) (by decide)
        (by simpa using fun byte _ => byte.toNat_lt)
      rw [length] at small
      refine ⟨_, small, ?_⟩
      rw [word, toNat_ofLe32, bigEndian]
      simp only [List.reverse_cons, List.append_assoc, List.map_append, Nat.ofDigits_append, length]
      rfl

theorem work32_lt_iff (hash : V32) (target : UInt32) :
    work32 hash < target ↔ bigEndian hash < target.toNat * Nat.pow 2 224 := by
  obtain ⟨low, small, value⟩ := bigEndian_eq hash
  rw [value, UInt32.lt_iff_toNat_lt]
  generalize Nat.pow 2 224 = base at small
  constructor
  · intro below
    calc
      low + base * (work32 hash).toNat < base + base * (work32 hash).toNat :=
        Nat.add_lt_add_right small _
      _ = ((work32 hash).toNat + 1) * base := by rw [Nat.mul_comm, Nat.succ_mul, Nat.add_comm]
      _ ≤ target.toNat * base := Nat.mul_le_mul_right base below
  · intro below
    have scaled : (work32 hash).toNat * base < target.toNat * base := by
      rw [Nat.mul_comm]
      omega
    exact Nat.lt_of_mul_lt_mul_right scaled

/-- A 64-bit nonce from its halves. -/
theorem toNat_wide (high low : UInt32) :
    (high.toUInt64 <<< 32 ||| low.toUInt64).toNat = low.toNat + high.toNat * 4294967296 := by
  have highBound := high.toNat_lt
  have lowBound := low.toNat_lt
  have scale : 2 ^ (UInt64.toNat 32 % 64) = 4294967296 := rfl
  have shifted : (high.toUInt64 <<< 32).toNat = high.toNat <<< 32 := by
    rw [UInt64.toNat_shiftLeft, UInt32.toNat_toUInt64, Nat.shiftLeft_eq, Nat.shiftLeft_eq, scale]
    omega
  rw [UInt64.toNat_or, shifted, UInt32.toNat_toUInt64, ← Nat.shiftLeft_add_eq_or_of_lt lowBound,
    Nat.shiftLeft_eq, Nat.add_comm]

/-! ## One iteration -/

/-- The hash functions that the miners call. What RandomX and ProgPow read of a
dataset is named by what was last built in it. -/
structure Hashes where
  randomx : Option V32 → Bytes → V32
  keccak256 : Bytes → V32
  /-- The final hash. -/
  progpow : Option UInt64 → UInt32 → V32 → UInt64 → V32

/-- A result in the queue of a miner, with the position of the job that it was
found for. The code keeps no position. -/
structure Found where
  result : MinerResult
  job : Nat
deriving DecidableEq

namespace Thread

variable (hashes : Hashes) (datasets : (ref : DatasetRef) → Dataset ι (Key ref)) (thread : Thread)

/-- `nonce_base | nonce_ctr`. The copy of the blob does not change in the loop. -/
def wideNonce : UInt64 :=
  (thread.currentJob.blob.read32 (thread.currentJob.noncePos.toNat - 4)).toUInt64 <<< 32 |||
    thread.nonce.toUInt64

def jobHash : V32 :=
  match thread.miner with
  | .rxCpuMiner =>
      hashes.randomx (datasets .randomxDataset).contents
        (thread.currentJob.blob.slice 0 thread.currentJob.blobLen.toNat)
  | .ppCpuMiner =>
      hashes.progpow (datasets .progpowDataset).contents thread.currentJob.height
        (hashes.keccak256
          (thread.currentJob.blob.slice 0 (thread.currentJob.blobLen.toNat - 8)))
        thread.wideNonce

/-- What an iteration puts into the queue of a miner with the given `thd_id`. -/
def finds (thdId : UInt32) : List Found :=
  if work32 (thread.jobHash hashes datasets) < thread.currentJob.target then
    [⟨⟨thread.currentJob.id, thread.nonce, thread.jobHash hashes datasets, thdId⟩,
      thread.lastJob⟩]
  else []

end Thread

/-! ## Shares of a job -/

/-- A hash of a job with four given bytes as its nonce. -/
def HashedFor (hashes : Hashes) (job : MinerJob) (nonce : Bytes) (hash : V32) : Prop :=
  match job.type with
  | .randomx =>
      ∃ contents, hash = hashes.randomx contents
        ((job.blob.write job.noncePos.toNat nonce).slice 0 job.blobLen.toNat)
  | .progpow =>
      ∃ contents wide, hash = hashes.progpow contents job.height
        (hashes.keccak256 (job.blob.slice 0 (job.blobLen.toNat - 8))) wide ∧
          wide.toNat = (ofLe32 nonce).toNat +
            (job.blob.read32 (job.noncePos.toNat - 4)).toNat * 4294967296
  | _ => False

theorem HashedFor.mines {hashes : Hashes} {job : MinerJob} {nonce : Bytes} {hash : V32}
    (hashed : HashedFor hashes job nonce hash) : job.type ≠ .idle := by
  intro idle
  simp [HashedFor, idle] at hashed

/-- A result that is a share for a job. -/
structure Genuine (hashes : Hashes) (job : MinerJob) (res : MinerResult) : Prop where
  id : res.id = job.id
  hashed : HashedFor hashes job (le32 res.nonce) res.resHash
  below : bigEndian res.resHash < job.target.toNat * Nat.pow 2 224

/-! ## The copy of a job -/

/-- The blob that a loop hashes a nonce with. -/
def CpuMiner.blobOf (job : MinerJob) (nonce : UInt32) : CpuMiner → Buffer 512
  | .rxCpuMiner => job.blob.write32 job.noncePos.toNat nonce
  | .ppCpuMiner => job.blob

/-- A thread works on a copy of a job, in which at most the nonce differs. -/
structure Thread.WorksOn (thread : Thread) (job : MinerJob) : Prop where
  type : job.type = thread.miner.powType
  copied : thread.currentJob = { job with blob := thread.currentJob.blob }
  blob : thread.currentJob.blob = job.blob ∨
    ∃ nonce, thread.currentJob.blob = thread.miner.blobOf job nonce
  fits : thread.phase ∈ [.loopHead, .nextNonce, .hash] → thread.miner.Fits thread.currentJob
  hashed : thread.phase = .hash → thread.currentJob.blob = thread.miner.blobOf job thread.nonce

namespace Thread.WorksOn

variable {thread : Thread} {job : MinerJob}

theorem goto (works : thread.WorksOn job) {phase : Phase}
    (fits : phase ∈ [.loopHead, .nextNonce] → thread.miner.Fits thread.currentJob)
    (notYet : phase ≠ .hash) : (thread.goto phase).WorksOn job where
  type := works.type
  copied := works.copied
  blob := works.blob
  fits := by
    intro inLoop
    apply fits
    simp only [goto_phase, List.mem_cons, List.not_mem_nil, or_false] at inLoop ⊢
    tauto
  hashed := fun isHash => absurd isHash notYet

theorem blob_withNonce (works : thread.WorksOn job) (nonce : UInt32) :
    (thread.withNonce nonce).currentJob.blob = thread.miner.blobOf job nonce := by
  have noncePos : thread.currentJob.noncePos = job.noncePos := by rw [works.copied]
  have before := works.blob
  cases thread with
  | mk miner phase lastJob currentJob nonceCtr =>
      cases miner with
      | ppCpuMiner =>
          rcases before with same | ⟨_, same⟩
          · exact same
          · exact same
      | rxCpuMiner =>
          change currentJob.blob.write32 currentJob.noncePos.toNat nonce = _
          rw [noncePos]
          rcases before with same | ⟨earlier, same⟩
          · rw [same]
            rfl
          · rw [same]
            exact Buffer.write32_write32 ..

/-- A loop has its next nonce. -/
theorem withNonce (works : thread.WorksOn job) (fits : thread.miner.Fits thread.currentJob)
    (nonce : UInt32) (phase : Phase) : ((thread.withNonce nonce).goto phase).WorksOn job := by
  have blob := works.blob_withNonce nonce
  constructor
  case type =>
    rw [goto_miner, withNonce_miner]
    exact works.type
  case copied =>
    rw [goto_currentJob, withNonce_currentJob, works.copied]
  case blob =>
    rw [goto_miner, withNonce_miner, goto_currentJob]
    exact .inr ⟨nonce, blob⟩
  case fits => exact fun _ => (fits_withNonce thread).mpr fits
  case hashed =>
    intro _
    rw [goto_miner, withNonce_miner, goto_currentJob, goto_nonce, nonce_withNonce_of_fits fits]
    exact blob

theorem hashedFor (works : thread.WorksOn job) (hashing : thread.phase = .hash) (hashes : Hashes)
    (datasets : (ref : DatasetRef) → Dataset ι (Key ref)) :
    HashedFor hashes job (le32 thread.nonce) (thread.jobHash hashes datasets) := by
  have noncePos : thread.currentJob.noncePos = job.noncePos := by rw [works.copied]
  have blobLen : thread.currentJob.blobLen = job.blobLen := by rw [works.copied]
  have height : thread.currentJob.height = job.height := by rw [works.copied]
  have type := works.type
  have blob := works.hashed hashing
  unfold HashedFor jobHash
  cases miner : thread.miner with
  | rxCpuMiner =>
      rw [miner] at type blob
      rw [type, blob, blobLen]
      exact ⟨_, rfl⟩
  | ppCpuMiner =>
      rw [miner] at type blob
      have wide : thread.wideNonce.toNat = thread.nonce.toNat +
          (job.blob.read32 (job.noncePos.toNat - 4)).toNat * 4294967296 := by
        rw [wideNonce, toNat_wide, blob, noncePos]
        rfl
      rw [type, blob, blobLen, height]
      refine ⟨_, _, rfl, ?_⟩
      rw [wide, ofLe32_le32]

/-- What an iteration finds is a share for the job. -/
theorem finds_genuine (works : thread.WorksOn job) (hashing : thread.phase = .hash)
    {hashes : Hashes} {datasets : (ref : DatasetRef) → Dataset ι (Key ref)} {thdId : UInt32}
    {found : Found} (member : found ∈ thread.finds hashes datasets thdId) :
    found.job = thread.lastJob ∧ Genuine hashes job found.result := by
  unfold finds at member
  split at member
  case isFalse => cases member
  case isTrue below =>
    cases List.mem_singleton.mp member
    have id : thread.currentJob.id = job.id := by rw [works.copied]
    have target : thread.currentJob.target = job.target := by rw [works.copied]
    rw [work32_lt_iff, target] at below
    exact ⟨rfl, id, works.hashedFor hashing hashes datasets, below⟩

end Thread.WorksOn

/-! ## Threads at work -/

/-- Past its load, a thread that is not idle works on the job that it points to. -/
def Engaged (published : PublishedJobs) (thread : Thread) : Prop :=
  thread.phase ∉ [.load, .idle] →
    ∃ job, published.jobs[thread.lastJob]? = some job ∧ thread.WorksOn job

theorem Engaged.grow {published later : PublishedJobs} {thread : Thread}
    (engaged : Engaged published thread)
    (grows : ∀ (position : Nat) (job : MinerJob), published.jobs[position]? = some job →
      later.jobs[position]? = some job) : Engaged later thread := by
  intro begun
  obtain ⟨job, found, works⟩ := engaged begun
  exact ⟨job, grows _ job found, works⟩

theorem engaged_load (published : PublishedJobs) (thread : Thread) :
    Engaged published (thread.load published) := by
  intro begun
  by_cases type : published.currentJob.type = thread.miner.powType
  · have phase : (thread.load published).phase = .checkReady := if_pos type
    refine ⟨published.currentJob, PublishedJobs.getElem?_current, type, rfl, .inl rfl, ?_, ?_⟩
    · rw [phase]
      simp
    · rw [phase]
      exact nofun
  · have phase : (thread.load published).phase = .idle := if_neg type
    rw [phase] at begun
    simp at begun

namespace State

variable [DecidableEq ι] {state next : State ι} {miner : ι}

omit [DecidableEq ι] in
theorem access_threads (getEpochNumber : Int32 → Int32) (op : SharedOp) :
    (state.access getEpochNumber op).threads = state.threads := by
  cases op with
  | publishIdle =>
      unfold access
      dsimp only
      split <;> rfl
  | _ => rfl

theorem MinerAccess.frame (access : state.MinerAccess miner next) :
    next.published = state.published ∧ next.script = state.script ∧
      ∀ other, other ≠ miner → next.threads other = state.threads other := by
  have elsewhere : ∀ (thread : Thread) (other : ι), other ≠ miner →
      Function.update state.threads miner thread other = state.threads other :=
    fun _ _ differs => Function.update_of_ne differs _ _
  cases access with
  | rest => exact ⟨rfl, rfl, fun _ _ => rfl⟩
  | claim =>
      simp only [record, withThread, true_and]
      exact elsewhere _
  | _ => exact ⟨rfl, rfl, elsewhere _⟩

/-- What an access of a miner leaves behind, by the phase that it was in. -/
theorem MinerAccess.engaged (access : state.MinerAccess miner next)
    (busy : (state.threads miner).phase ≠ .idle)
    (before : Engaged state.published (state.threads miner)) :
    Engaged next.published (next.threads miner) := by
  obtain ⟨published, -, -⟩ := access.frame
  rw [published]
  have moves : ∀ {thread : Thread}, thread.lastJob = (state.threads miner).lastJob →
      (state.threads miner).phase ≠ .load →
      (∀ job, (state.threads miner).WorksOn job → thread.WorksOn job) →
      Engaged state.published thread := by
    intro thread lastJob begun works _
    obtain ⟨job, found, worked⟩ := before (by simp [begun, busy])
    exact ⟨job, lastJob ▸ found, works job worked⟩
  cases access with
  | load phase =>
      simp only [withThread, Function.update_self]
      exact engaged_load _ _
  | rest phase => exact before
  | wait after waits goes =>
      simp only [withThread, Function.update_self]
      refine moves rfl ?_ fun job works => works.goto ?_ ?_
      · rintro phase
        simp [phase] at waits
      · intro inLoop
        rcases List.mem_pair.mp inLoop with rfl | rfl <;> simp at goes
      · rintro rfl
        simp at goes
  | ready ref phase ds ready =>
      simp only [withThread, Function.update_self]
      exact moves rfl (by simp [phase]) fun job works => works.goto (by simp) (by simp)
  | lockShared ref phase ds free fits =>
      simp only [withThread, Function.update_self]
      exact moves (by simp) (by simp [phase]) fun job works => works.withNonce fits 0 _
  | goOn phase current =>
      simp only [withThread, Function.update_self]
      refine moves rfl (by simp [phase]) fun job works => works.goto (fun _ => ?_) (by simp)
      exact works.fits (by simp [phase])
  | stop phase changed =>
      simp only [withThread, Function.update_self]
      exact moves rfl (by simp [phase]) fun job works => works.goto (by simp) (by simp)
  | claim phase claims =>
      simp only [withThread, record, Function.update_self]
      refine moves (by simp [Thread.claim]) (by simp [phase]) fun job works => ?_
      exact works.withNonce (works.fits (by simp [phase])) _ _
  | increment phase claims =>
      simp only [withThread, Function.update_self]
      refine moves (by simp [Thread.increment]) (by simp [phase]) fun job works => ?_
      exact works.withNonce (works.fits (by simp [phase])) _ _
  | hash phase =>
      simp only [withThread, record, Function.update_self]
      refine moves rfl (by simp [phase]) fun job works => works.goto (fun _ => ?_) (by simp)
      exact works.fits (by simp [phase])
  | unlockShared ref phase ds =>
      simp only [withThread, Function.update_self]
      exact moves rfl (by simp [phase]) fun job works => works.goto (by simp) (by simp)

theorem engaged_minerStep (stepped : state.minerStep miner = some next)
    (engaged : ∀ other, Engaged state.published (state.threads other)) (other : ι) :
    Engaged next.published (next.threads other) := by
  have access := minerAccess_of_minerStep stepped
  by_cases same : other = miner
  · subst same
    by_cases idle : (state.threads other).phase = .idle
    · intro begun
      simp only [minerStep, idle] at stepped
      split at stepped
      · cases stepped
        simp [idle] at begun
      · cases stepped
        simp [withThread] at begun
    · exact access.engaged idle (engaged other)
  · obtain ⟨published, -, others⟩ := access.frame
    rw [published, others other same]
    exact engaged other

end State

end EpicMiner.Mining
