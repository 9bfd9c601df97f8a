import EpicMiner.EventLoop.JobBounds

/-!
Owns the decoding of a job message: what each field of an accepted job holds, and
which strings are accepted although a part of them is ignored.
-/

namespace EpicMiner.EventLoop

open EpicMiner.Library
open EpicMiner.Data

/-! ## Exact decodings -/

/-- `job` is an exact decoding of the members of `param`. -/
structure Decodes (param : Value) (job : PoolJob) : Prop where
  id : ∃ jobid, param.getObjectMember (ascii "job_id") = .ok (some (.string jobid)) ∧
    job.id.slice 0 (jobid.length + 1) = jobid ++ [0]
  blob : ∃ blob, param.getObjectMember (ascii "blob") = .ok (some (.string blob)) ∧
    bin2hex (job.blob.slice 0 job.blobLen.toNat) = blob.map lowerCase ++ [0]
  target : ∃ target, param.getObjectMember (ascii "target") = .ok (some (.string target)) ∧
    bin2hex (le32 job.target) =
      (target ++ List.replicate (8 - target.length) 48).map lowerCase ++ [0] ∧ job.target ≠ 0
  seedHash : ∃ seedHash, param.getObjectMember (ascii "seed_hash") = .ok (some (.string seedHash)) ∧
    bin2hex job.randomxSeed.cells = seedHash.map lowerCase ++ [0]
  height : param.getObjectMember (ascii "height") = .ok (some (.number (some job.height)))
  type : param.getObjectMember (ascii "pow_algo") =
    .ok (some (.string (ascii (powTypeToStr job.type))))

/-- The two strings of which a part may be ignored are read as a whole. -/
def ReadWhole (param : Value) : Prop :=
  ∃ blob powAlgo, param.getObjectMember (ascii "blob") = .ok (some (.string blob)) ∧
    param.getObjectMember (ascii "pow_algo") = .ok (some (.string powAlgo)) ∧
      blob.length % 2 = 0 ∧ 0 ∉ powAlgo

/-- An algorithm is named by the text up to the first NUL. -/
theorem powTypeOf_some {powAlgo : Bytes} {type : PowType} (named : powTypeOf powAlgo = some type) :
    cString powAlgo = ascii (powTypeToStr type) := by
  have plain : cString (ascii "randomx") = ascii "randomx" ∧
      cString (ascii "progpow") = ascii "progpow" ∧ cString (ascii "cuckoo") = ascii "cuckoo" := by
    decide
  obtain ⟨randomx, progpow, cuckoo⟩ := plain
  unfold powTypeOf strcmpEqual at named
  rw [randomx, progpow, cuckoo] at named
  split at named
  case isTrue same =>
    cases named
    exact beq_iff_eq.mp same
  case isFalse =>
    split at named
    case isTrue same =>
      cases named
      exact beq_iff_eq.mp same
    case isFalse =>
      split at named
      case isTrue same =>
        cases named
        exact beq_iff_eq.mp same
      case isFalse => cases named

namespace Filled

variable {params : JobParams} {job filled : PoolJob} (isFilled : Filled params job filled)

include isFilled

theorem id_eq :
    filled.id.slice 0 (params.jobid.length + 1) = params.jobid ++ [0] := by
  have short := isFilled.jobid
  have stored := job.id.slice_write_self 0 (params.jobid ++ [0]) (by simp; omega)
  rw [isFilled.id]
  simpa using stored

/-- The digits of the blob that are looked at are in the job. -/
theorem blob_eq : bin2hex (filled.blob.slice 0 (workLen params).toUInt32.toNat) =
    (blobDigits params).map lowerCase ++ [0] := by
  have fits := isFilled.length
  have length : (blobDigits params).length = workLen params * 2 := by
    have half : workLen params = params.blob.length / 2 := rfl
    rw [blobDigits, List.length_take]
    omega
  have stored : (hexStored (blobDigits params)).length = workLen params := by
    rw [length_hexStored isFilled.digits, length]
    omega
  have word : (workLen params).toUInt32.toNat = workLen params := by
    simp
    omega
  have written := job.blob.slice_write_self 0 (hexStored (blobDigits params)) (by omega)
  rw [word, isFilled.blob, ← stored, written]
  exact bin2hex_hexStored (by omega) isFilled.digits

theorem target_eq : bin2hex (le32 filled.target) =
    (paddedTarget params.target).map lowerCase ++ [0] := by
  have length := length_paddedTarget isFilled.targetLength
  have stored : (hexStored (paddedTarget params.target)).length = 4 := by
    rw [length_hexStored isFilled.targetDigits, length]
  have bytes : le32 filled.target = hexStored (paddedTarget params.target) := by
    rw [isFilled.target]
    match hexStored (paddedTarget params.target), stored with
    | [first, second, third, fourth], _ => exact le32_ofLe32 first second third fourth
  rw [bytes]
  exact bin2hex_hexStored (by omega) isFilled.targetDigits

theorem seedHash_eq : ∃ seedHash, params.seedHash = .string seedHash ∧
    bin2hex filled.randomxSeed.cells = seedHash.map lowerCase ++ [0] := by
  obtain ⟨seedHash, isString, length, digits, seed⟩ := isFilled.seedHash
  have stored : (hexStored seedHash).length = 32 := by
    rw [length_hexStored digits, length]
  refine ⟨seedHash, isString, ?_⟩
  rw [seed, Buffer.cells_write_whole _ _ stored]
  exact bin2hex_hexStored (by omega) digits

end Filled

/-- A job that `process_pool_job` has made is an exact decoding of its message exactly if
the blob has an even number of characters and the algorithm no NUL. -/
theorem decodes_iff (config : Config) (param : Value) (app next : App)
    (accepted : (processPoolJob config param).run app = .ok (true, next)) :
    Decodes param next.pool.myJob ↔ ReadWhole param := by
  have outcome := (processPoolJob_ensures config param app).of_run accepted
  cases outcome with
  | accepted params job found filled =>
      have members := checkParams_found found
      have isFilled := filled_of_accepted filled
      have named := powTypeOf_some isFilled.type
      have blob := isFilled.blob_eq
      constructor
      · intro decodes
        obtain ⟨whole, isWhole, hex⟩ := decodes.blob
        cases members.blob.symm.trans isWhole
        refine ⟨params.blob, params.powAlgo, members.blob, members.powAlgo, ?_, ?_⟩
        · have lengths := congrArg List.length (blob.symm.trans hex)
          simp [blobDigits, workLen] at lengths
          omega
        · have same := members.powAlgo.symm.trans decodes.type
          simp only [Except.ok.injEq, Option.some.injEq, Value.string.injEq] at same
          rw [cString_eq_self_iff.symm, same]
          exact same ▸ named
      · rintro ⟨_, _, isBlob, isAlgo, even, plain⟩
        cases members.blob.symm.trans isBlob
        cases members.powAlgo.symm.trans isAlgo
        obtain ⟨seedHash, isSeed, seedHex⟩ := isFilled.seedHash_eq
        have wholeBlob : blobDigits params = params.blob := by
          unfold blobDigits workLen
          exact List.take_of_length_le (by omega)
        rw [wholeBlob] at blob
        rw [cString_of_not_mem plain] at named
        exact
          { id := ⟨params.jobid, members.jobid, isFilled.id_eq⟩
            blob := ⟨params.blob, members.blob, blob⟩
            target := ⟨params.target, members.target, isFilled.target_eq, isFilled.targetNonzero⟩
            seedHash := ⟨seedHash, isSeed ▸ members.seedHash, seedHex⟩
            height := members.height
            type := named ▸ members.powAlgo }

theorem decodes_iff_sample :
    ∃ next, (processPoolJob (.ofRun (.ofTexts []) ethashEpoch) JobMessage.sample.params).run
        .start = .ok (true, next) ∧
      (Decodes JobMessage.sample.params next.pool.myJob ↔ ReadWhole JobMessage.sample.params) :=
  ⟨_, rfl, decodes_iff _ _ _ _ rfl⟩

/-- The sample job with one more digit in its blob. -/
def oddBlobMessage : JobMessage :=
  { JobMessage.sample with blob := List.replicate 17 48 }

/-- The last digit of the blob is ignored, and the job accepted. -/
theorem odd_blob_not_decoded :
    ∃ next, (processPoolJob (.ofRun (.ofTexts []) ethashEpoch) oddBlobMessage.params).run
        .start = .ok (true, next) ∧ ¬ Decodes oddBlobMessage.params next.pool.myJob := by
  refine ⟨_, rfl, fun decodes => ?_⟩
  obtain ⟨blob, isBlob, hex⟩ := decodes.blob
  have odd : oddBlobMessage.params.getObjectMember (ascii "blob") =
      .ok (some (.string (List.replicate 17 48))) := rfl
  cases odd.symm.trans isBlob
  exact absurd (congrArg List.length hex) (by decide)

end EpicMiner.EventLoop
