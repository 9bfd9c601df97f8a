import EpicMiner.EventLoop.Documents
import EpicMiner.Data.Hex

/-!
Owns the checks of a job message and the writes to the pool's job between them.
`fillJob_filling` says all that can happen; later proofs use it and never unfold the checks.
-/

namespace EpicMiner.EventLoop

open EpicMiner.Library
open EpicMiner.Data

/-! ## Strings of digits -/

def AllHex (digits : Bytes) : Prop :=
  ∀ c ∈ digits, IsHexDigit c

instance (digits : Bytes) : Decidable (AllHex digits) := by
  unfold AllHex
  infer_instance

/-- The digits of the blob that are looked at: all, or all but the last one. -/
def blobDigits (params : JobParams) : Bytes :=
  params.blob.take (workLen params * 2)

theorem length_paddedTarget {target : Bytes} (short : target.length ≤ 8) :
    (paddedTarget target).length = 8 := by
  simp [paddedTarget]
  omega

theorem hex2bin_blob (params : JobParams) (out : Buffer 512) :
    hex2bin params.blob (workLen params * 2) out =
      (decide (AllHex (blobDigits params)), out.write 0 (hexStored (blobDigits params))) :=
  hex2bin_eq (show workLen params * 2 ≤ params.blob.length by unfold workLen; omega) (by omega) out

theorem hex2bin_target {target : Bytes} (short : target.length ≤ 8) (out : Buffer 4) :
    hex2bin (paddedTarget target) 8 out =
      (decide (AllHex (paddedTarget target)), out.write 0 (hexStored (paddedTarget target))) := by
  have length := length_paddedTarget short
  have whole := hex2bin_eq (show 8 ≤ (paddedTarget target).length by omega) rfl out
  have all : (paddedTarget target).take 8 = paddedTarget target := List.take_of_length_le (by omega)
  rwa [all] at whole

theorem hex2bin_seed {seedHash : Bytes} (length : seedHash.length = 64) (out : V32) :
    hex2bin seedHash seedHash.length out =
      (decide (AllHex seedHash), out.write 0 (hexStored seedHash)) := by
  have whole := hex2bin_eq (Nat.le_refl seedHash.length) (by omega) out
  rwa [List.take_length] at whole

/-! ## Writes -/

def targetBytes (job : PoolJob) : Buffer 4 :=
  ⟨le32 job.target, rfl⟩

section Writes

variable (params : JobParams) (type : PowType)

def idWritten (job : PoolJob) : PoolJob :=
  { job with type := type, id := job.id.write 0 (params.jobid ++ [0]) }

def blobWritten (job : PoolJob) : PoolJob :=
  { idWritten params type job with
    blob := job.blob.write 0 (hexStored (blobDigits params)) }

def targetWritten (job : PoolJob) : PoolJob :=
  { blobWritten params type job with
    target := ofLe32 ((targetBytes job).write 0 (hexStored (paddedTarget params.target))).cells }

def seedWritten (seedHash : Bytes) (job : PoolJob) : PoolJob :=
  { targetWritten params type job with
    randomxSeed := job.randomxSeed.write 0 (hexStored seedHash) }

end Writes

/-! ## Checks -/

/-- The checks up to the one of the blob are passed. -/
structure BlobPassed (params : JobParams) (type : PowType) : Prop where
  named : powTypeOf params.powAlgo = some type
  shortId : params.jobid.length < 64
  shortBlob : workLen params ≤ 512
  digits : AllHex (blobDigits params)

/-- The checks up to the one of the target are passed. -/
structure TargetPassed (params : JobParams) (type : PowType) (job : PoolJob) : Prop
    extends BlobPassed params type where
  shortTarget : params.target.length ≤ 8
  targetDigits : AllHex (paddedTarget params.target)
  nonzero : (targetWritten params type job).target ≠ 0

/-- What the checks can come to: a rejection, with what is written by then, or the filled
job. -/
inductive Filling (params : JobParams) (job : PoolJob) : Option Bytes → PoolJob → Prop where
  | unknownAlgo (err : Bytes) (unknown : powTypeOf params.powAlgo = none) :
      Filling params job (some err) job
  | longId (err : Bytes) {type : PowType} (named : powTypeOf params.powAlgo = some type)
      (long : 64 ≤ params.jobid.length) : Filling params job (some err) { job with type := type }
  | longBlob (err : Bytes) {type : PowType} (named : powTypeOf params.powAlgo = some type)
      (shortId : params.jobid.length < 64) (long : 512 < workLen params) :
      Filling params job (some err) (idWritten params type job)
  | badBlob (err : Bytes) {type : PowType} (named : powTypeOf params.powAlgo = some type)
      (shortId : params.jobid.length < 64) (shortBlob : workLen params ≤ 512)
      (bad : ¬AllHex (blobDigits params)) :
      Filling params job (some err) (blobWritten params type job)
  | longTarget (err : Bytes) {type : PowType} (passed : BlobPassed params type)
      (long : 8 < params.target.length) :
      Filling params job (some err) (blobWritten params type job)
  | badTarget (err : Bytes) {type : PowType} (passed : BlobPassed params type)
      (shortTarget : params.target.length ≤ 8)
      (bad : ¬AllHex (paddedTarget params.target) ∨ (targetWritten params type job).target = 0) :
      Filling params job (some err) (targetWritten params type job)
  | noSeed (err : Bytes) {type : PowType} (passed : TargetPassed params type job)
      (other : ∀ seedHash, params.seedHash = .string seedHash → seedHash.length ≠ 64) :
      Filling params job (some err) (targetWritten params type job)
  | badSeed (err : Bytes) {type : PowType} {seedHash : Bytes}
      (passed : TargetPassed params type job) (isString : params.seedHash = .string seedHash)
      (length : seedHash.length = 64) (bad : ¬AllHex seedHash) :
      Filling params job (some err) (seedWritten params type seedHash job)
  | filled {type : PowType} {seedHash : Bytes} (passed : TargetPassed params type job)
      (isString : params.seedHash = .string seedHash) (length : seedHash.length = 64)
      (digits : AllHex seedHash) :
      Filling params job none (seedWritten params type seedHash job)

theorem fillJob_filling (params : JobParams) (job : PoolJob) :
    Filling params job (fillJob params job).1 (fillJob params job).2 := by
  unfold fillJob
  split
  case h_1 unknown => exact .unknownAlgo _ unknown
  case h_2 type named =>
    dsimp only
    split
    · exact .longId _ named (by assumption)
    rename_i shortId
    have shortId := Nat.lt_of_not_le shortId
    split
    · exact .longBlob _ named shortId (by assumption)
    rename_i shortBlob
    have shortBlob := Nat.le_of_not_lt shortBlob
    rw [hex2bin_blob]
    dsimp only
    split
    · rename_i bad
      exact .badBlob _ named shortId shortBlob (by simpa using bad)
    rename_i digits
    have passed : BlobPassed params type := ⟨named, shortId, shortBlob, by simpa using digits⟩
    split
    · exact .longTarget _ passed (by assumption)
    rename_i shortTarget
    have shortTarget := Nat.le_of_not_lt shortTarget
    rw [hex2bin_target shortTarget]
    dsimp only
    split
    · rename_i bad
      exact .badTarget _ passed shortTarget (bad.imp_left (by simp))
    rename_i good
    obtain ⟨digits, nonzero⟩ := not_or.mp good
    have passed : TargetPassed params type job :=
      ⟨passed, shortTarget, by simpa using digits, nonzero⟩
    split
    case h_2 other => exact .noSeed _ passed fun seedHash isString => absurd isString (other seedHash)
    case h_1 seedHash isString =>
      split
      · rename_i length
        refine .noSeed _ passed fun other same => ?_
        cases isString.symm.trans same
        exact length
      rename_i length
      have length := not_not.mp length
      rw [hex2bin_seed length]
      dsimp only
      split
      · rename_i bad
        exact .badSeed _ passed isString length (by simpa using bad)
      · rename_i digits
        exact .filled passed isString length (by simpa using digits)

/-- What an accepted job holds. -/
structure Filled (params : JobParams) (job filled : PoolJob) : Prop where
  type : powTypeOf params.powAlgo = some filled.type
  jobid : params.jobid.length < 64
  id : filled.id = job.id.write 0 (params.jobid ++ [0])
  length : workLen params ≤ 512
  digits : AllHex (blobDigits params)
  blob : filled.blob = job.blob.write 0 (hexStored (blobDigits params))
  targetLength : params.target.length ≤ 8
  targetDigits : AllHex (paddedTarget params.target)
  target : filled.target = ofLe32 (hexStored (paddedTarget params.target))
  targetNonzero : filled.target ≠ 0
  seedHash : ∃ seedHash, params.seedHash = .string seedHash ∧ seedHash.length = 64 ∧
    AllHex seedHash ∧ filled.randomxSeed = job.randomxSeed.write 0 (hexStored seedHash)

theorem filled_of_accepted {params : JobParams} {job filled : PoolJob}
    (accepted : fillJob params job = (none, filled)) : Filled params job filled := by
  have filling := fillJob_filling params job
  rw [accepted] at filling
  cases filling with
  | @filled type seedHash passed isString length digits =>
      have stored : (hexStored (paddedTarget params.target)).length = 4 := by
        rw [length_hexStored passed.targetDigits, length_paddedTarget passed.shortTarget]
      exact
        { type := passed.named
          jobid := passed.shortId
          id := rfl
          length := passed.shortBlob
          digits := passed.digits
          blob := rfl
          targetLength := passed.shortTarget
          targetDigits := passed.targetDigits
          target := congrArg ofLe32 (Buffer.cells_write_whole _ _ stored)
          targetNonzero := passed.nonzero
          seedHash := ⟨seedHash, isString, length, digits, rfl⟩ }

end EpicMiner.EventLoop
