import EpicMiner.EventLoop.Decoding

/-!
Owns the rejected job messages: what each leaves behind in the pool's job. The job is
reset and written field by field before the last check is made, so a rejection leaves
it alone only where it repeats what is there.
-/

namespace EpicMiner.EventLoop

open EpicMiner.Library
open EpicMiner.Data

/-- The buffer holds the bytes that `hex2bin` would store. -/
def HoldsHex {size : Nat} (buffer : Buffer size) (digits : Bytes) : Prop :=
  buffer.slice 0 (hexStored digits).length = hexStored digits

/-- Each field that is written before a check fails has the written value already. -/
def Repeats (params : JobParams) (job : PoolJob) : Prop :=
  ∀ type, powTypeOf params.powAlgo = some type → job.type = type ∧
    (params.jobid.length < 64 →
      job.id.slice 0 (params.jobid.length + 1) = params.jobid ++ [0] ∧
        (workLen params ≤ 512 → HoldsHex job.blob (blobDigits params) ∧
          (AllHex (blobDigits params) → params.target.length ≤ 8 →
            HoldsHex (targetBytes job) (paddedTarget params.target) ∧
              (AllHex (paddedTarget params.target) → job.target ≠ 0 →
                ∀ seedHash, params.seedHash = .string seedHash → seedHash.length = 64 →
                  HoldsHex job.randomxSeed seedHash))))

/-! ## Fields that are written again -/

section Repeated

variable {params : JobParams} {type : PowType} {job : PoolJob}

theorem id_repeated_iff {id : Buffer 64} (short : params.jobid.length < 64) :
    id.write 0 (params.jobid ++ [0]) = id ↔
      id.slice 0 (params.jobid.length + 1) = params.jobid ++ [0] := by
  have length : (params.jobid ++ [0]).length = params.jobid.length + 1 := by simp
  rw [Buffer.write_eq_self_iff _ _ (by omega), length]

theorem blob_repeated_iff {blob : Buffer 512} (fits : workLen params ≤ 512) :
    blob.write 0 (hexStored (blobDigits params)) = blob ↔ HoldsHex blob (blobDigits params) := by
  have shorter := length_hexStored_le (blobDigits params)
  have digits : (blobDigits params).length ≤ workLen params * 2 := List.length_take_le _ _
  exact Buffer.write_eq_self_iff _ _ (by omega)

theorem target_repeated_iff (short : params.target.length ≤ 8) :
    ofLe32 ((targetBytes job).write 0 (hexStored (paddedTarget params.target))).cells =
        job.target ↔
      HoldsHex (targetBytes job) (paddedTarget params.target) := by
  have shorter := length_hexStored_le (paddedTarget params.target)
  have length := length_paddedTarget short
  have word : ∀ bytes : Buffer 4, ofLe32 bytes.cells = job.target ↔ bytes = targetBytes job := by
    rintro ⟨cells, sized⟩
    constructor
    · intro same
      match cells, sized with
      | [first, second, third, fourth], _ =>
          have back := le32_ofLe32 first second third fourth
          simp only [targetBytes, ← same, back]
    · intro same
      rw [same]
      exact ofLe32_le32 job.target
  rw [word]
  exact Buffer.write_eq_self_iff _ _ (by omega)

theorem seed_repeated_iff {seedHash : Bytes} {seed : V32} (length : seedHash.length = 64) :
    seed.write 0 (hexStored seedHash) = seed ↔ HoldsHex seed seedHash := by
  have shorter := length_hexStored_le seedHash
  exact Buffer.write_eq_self_iff _ _ (by omega)

/-! ## Jobs that are written again -/

theorem typed_eq_self_iff : { job with type := type } = job ↔ job.type = type := by
  cases job
  simp only [PoolJob.mk.injEq, true_and]
  exact eq_comm

theorem idWritten_eq_self_iff :
    idWritten params type job = job ↔
      { job with type := type } = job ∧ job.id.write 0 (params.jobid ++ [0]) = job.id := by
  cases job
  simp only [idWritten, PoolJob.mk.injEq, true_and]
  exact and_comm

theorem blobWritten_eq_self_iff :
    blobWritten params type job = job ↔ idWritten params type job = job ∧
      job.blob.write 0 (hexStored (blobDigits params)) = job.blob := by
  cases job
  simp only [blobWritten, idWritten, PoolJob.mk.injEq, true_and]
  exact ⟨fun ⟨id, blob, type⟩ => ⟨⟨id, type⟩, blob⟩, fun ⟨⟨id, type⟩, blob⟩ => ⟨id, blob, type⟩⟩

theorem targetWritten_eq_self_iff :
    targetWritten params type job = job ↔ blobWritten params type job = job ∧
      ofLe32 ((targetBytes job).write 0 (hexStored (paddedTarget params.target))).cells =
        job.target := by
  cases job
  simp only [targetWritten, blobWritten, idWritten, PoolJob.mk.injEq, true_and]
  exact ⟨fun ⟨id, blob, target, type⟩ => ⟨⟨id, blob, type⟩, target⟩,
    fun ⟨⟨id, blob, type⟩, target⟩ => ⟨id, blob, target, type⟩⟩

theorem seedWritten_eq_self_iff {seedHash : Bytes} :
    seedWritten params type seedHash job = job ↔ targetWritten params type job = job ∧
      job.randomxSeed.write 0 (hexStored seedHash) = job.randomxSeed := by
  cases job
  simp only [seedWritten, targetWritten, blobWritten, idWritten, PoolJob.mk.injEq, true_and]
  exact ⟨fun ⟨id, blob, seed, target, type⟩ => ⟨⟨id, blob, target, type⟩, seed⟩,
    fun ⟨⟨id, blob, target, type⟩, seed⟩ => ⟨id, blob, seed, target, type⟩⟩

end Repeated

/-! ## Rejections -/

/-- The members that `fillJob` does not write. -/
theorem fillJob_frame (params : JobParams) (job : PoolJob) :
    (fillJob params job).2.nonce = job.nonce ∧ (fillJob params job).2.blobLen = job.blobLen := by
  have filling := fillJob_filling params job
  generalize fillJob params job = ended at filling
  obtain ⟨rejection, filled⟩ := ended
  cases filling <;> exact ⟨rfl, rfl⟩

section Passed

variable {params : JobParams} {type : PowType} {job : PoolJob}

theorem BlobPassed.blobWritten_iff (passed : BlobPassed params type) :
    blobWritten params type job = job ↔ job.type = type ∧
      job.id.slice 0 (params.jobid.length + 1) = params.jobid ++ [0] ∧
        HoldsHex job.blob (blobDigits params) := by
  rw [blobWritten_eq_self_iff, idWritten_eq_self_iff, typed_eq_self_iff,
    id_repeated_iff passed.shortId, blob_repeated_iff passed.shortBlob, and_assoc]

theorem BlobPassed.targetWritten_iff (passed : BlobPassed params type)
    (shortTarget : params.target.length ≤ 8) :
    targetWritten params type job = job ↔ job.type = type ∧
      job.id.slice 0 (params.jobid.length + 1) = params.jobid ++ [0] ∧
        HoldsHex job.blob (blobDigits params) ∧
          HoldsHex (targetBytes job) (paddedTarget params.target) := by
  rw [targetWritten_eq_self_iff, passed.blobWritten_iff, target_repeated_iff shortTarget,
    and_assoc, and_assoc]

theorem BlobPassed.repeats_iff (passed : BlobPassed params type) :
    Repeats params job ↔ job.type = type ∧
      job.id.slice 0 (params.jobid.length + 1) = params.jobid ++ [0] ∧
        HoldsHex job.blob (blobDigits params) ∧
          (params.target.length ≤ 8 → HoldsHex (targetBytes job) (paddedTarget params.target) ∧
            (AllHex (paddedTarget params.target) → job.target ≠ 0 →
              ∀ seedHash, params.seedHash = .string seedHash → seedHash.length = 64 →
                HoldsHex job.randomxSeed seedHash)) := by
  simp only [Repeats, passed.named, Option.some.injEq, forall_eq', passed.shortId,
    passed.shortBlob, passed.digits, true_imp_iff]

end Passed

/-- A job is left alone exactly if every write before the rejection repeats what is there. -/
theorem fillJob_rejected_iff {params : JobParams} {job filled : PoolJob} {err : Bytes}
    (rejected : fillJob params job = (some err, filled)) :
    filled = job ↔ Repeats params job := by
  have filling : Filling params job (some err) filled := by
    have filling := fillJob_filling params job
    rwa [rejected] at filling
  clear rejected
  cases filling with
  | unknownAlgo _ unknown => simp [Repeats, unknown]
  | longId _ named long =>
      simp only [Repeats, named, Option.some.injEq, forall_eq', Nat.not_lt.mpr long,
        false_imp_iff, and_true]
      exact typed_eq_self_iff
  | longBlob _ named shortId long =>
      simp only [Repeats, named, Option.some.injEq, forall_eq', shortId, true_imp_iff,
        Nat.not_le.mpr long, false_imp_iff, and_true]
      rw [idWritten_eq_self_iff, typed_eq_self_iff, id_repeated_iff shortId]
  | badBlob _ named shortId shortBlob bad =>
      simp only [Repeats, named, Option.some.injEq, forall_eq', shortId, shortBlob, true_imp_iff,
        bad, false_imp_iff, and_true]
      rw [blobWritten_eq_self_iff, idWritten_eq_self_iff, typed_eq_self_iff,
        id_repeated_iff shortId, blob_repeated_iff shortBlob, and_assoc]
  | longTarget _ passed long =>
      rw [passed.blobWritten_iff, passed.repeats_iff]
      simp only [Nat.not_le.mpr long, false_imp_iff, and_true]
  | badTarget _ passed shortTarget bad =>
      rw [passed.repeats_iff]
      simp only [shortTarget, true_imp_iff]
      constructor
      · intro same
        obtain ⟨isType, id, blob, target⟩ := (passed.targetWritten_iff shortTarget).mp same
        refine ⟨isType, id, blob, target, fun digits nonzero => ?_⟩
        rw [same] at bad
        exact absurd (bad.resolve_left (not_not.mpr digits)) nonzero
      · rintro ⟨isType, id, blob, target, -⟩
        exact (passed.targetWritten_iff shortTarget).mpr ⟨isType, id, blob, target⟩
  | noSeed _ passed other =>
      rw [passed.targetWritten_iff passed.shortTarget, passed.repeats_iff]
      simp only [passed.shortTarget, true_imp_iff]
      constructor
      · rintro ⟨isType, id, blob, target⟩
        exact ⟨isType, id, blob, target, fun _ _ seedHash isString length =>
          absurd length (other seedHash isString)⟩
      · rintro ⟨isType, id, blob, target, -⟩
        exact ⟨isType, id, blob, target⟩
  | badSeed _ passed isString length bad =>
      rw [seedWritten_eq_self_iff, seed_repeated_iff length, passed.repeats_iff]
      simp only [passed.shortTarget, passed.targetDigits, isString, Value.string.injEq,
        forall_eq', length, true_imp_iff]
      constructor
      · rintro ⟨same, seed⟩
        obtain ⟨isType, id, blob, target⟩ :=
          (passed.targetWritten_iff passed.shortTarget).mp same
        exact ⟨isType, id, blob, target, fun _ => seed⟩
      · rintro ⟨isType, id, blob, target, seed⟩
        have same := (passed.targetWritten_iff passed.shortTarget).mpr ⟨isType, id, blob, target⟩
        have nonzero := passed.nonzero
        rw [same] at nonzero
        exact ⟨same, seed nonzero⟩

/-! ## Messages -/

/-- The pool's job, its state and the job of the miners are what they were. -/
structure JobUntouched (app next : App) : Prop where
  myJob : next.pool.myJob = app.pool.myJob
  state : next.pool.state = app.pool.state
  currentJob : next.executor.published.currentJob = app.executor.published.currentJob

/-- The message fails the first check, or there is nothing to reset and nothing new to
write before the check that it fails. -/
def LeavesJob (param : Value) (job : PoolJob) : Prop :=
  checkParams param = .ok none ∨
    job.nonce = 0 ∧ job.blobLen = 0 ∧
      ∃ params, checkParams param = .ok (some params) ∧ Repeats params job

theorem reset_eq_self_iff (job : PoolJob) :
    job.reset = job ↔ job.nonce = 0 ∧ job.blobLen = 0 := by
  cases job
  simp [PoolJob.reset, and_comm, eq_comm]

/-- A message that `process_pool_job` rejects leaves the job as it was exactly if it fails
the first check, or has nothing to reset and nothing new to write. -/
theorem jobUntouched_iff (config : Config) (param : Value) (app next : App)
    (rejected : (processPoolJob config param).run app = .ok (false, next)) :
    JobUntouched app next ↔ LeavesJob param app.pool.myJob := by
  have outcome := (processPoolJob_ensures config param app).of_run rejected
  cases outcome with
  | refused unchecked => exact iff_of_true ⟨rfl, rfl, rfl⟩ (.inl unchecked)
  | rejected params err job found filled =>
      have untouched : JobUntouched app (app.jobRejected config err job) ↔ job = app.pool.myJob :=
        ⟨JobUntouched.myJob, fun same => ⟨same, rfl, rfl⟩⟩
      have leaves : LeavesJob param app.pool.myJob ↔
          app.pool.myJob.reset = app.pool.myJob ∧ Repeats params app.pool.myJob := by
        rw [LeavesJob, reset_eq_self_iff, found]
        simp [and_assoc]
      rw [untouched, leaves]
      constructor
      · rintro rfl
        obtain ⟨nonce, blobLen⟩ := fillJob_frame params app.pool.myJob.reset
        rw [filled] at nonce blobLen
        have reset := (reset_eq_self_iff app.pool.myJob).mpr ⟨nonce, blobLen⟩
        exact ⟨reset, (fillJob_rejected_iff filled).mp reset.symm⟩
      · rintro ⟨reset, repeats⟩
        rw [reset] at filled
        exact (fillJob_rejected_iff filled).mpr repeats

/-- A job message for an algorithm that there is not. -/
def unknownAlgoMessage : JobMessage :=
  { JobMessage.sample with powAlgo := ascii "sha256" }

/-- The pool works on a job with a blob of eight bytes. -/
def App.working : App :=
  { App.start with
    pool :=
      { App.start.pool with
        myJob := { PoolJob.zero with blobLen := 8, noncePos := 4, target := 0xffffffff, type := .randomx }
        state := .hasJob } }

/-- A message without any member is rejected before it touches the job that the pool has. -/
theorem jobUntouched_iff_noMembers :
    ∃ next, (processPoolJob (.ofRun (.ofTexts []) ethashEpoch) (.object [])).run .working =
        .ok (false, next) ∧
      (JobUntouched .working next ↔ LeavesJob (.object []) App.working.pool.myJob) :=
  ⟨_, rfl, jobUntouched_iff _ _ _ _ rfl⟩

/-- A rejected message takes the job away that the pool has. -/
theorem rejected_message_touches_job :
    ∃ next, (processPoolJob (.ofRun (.ofTexts []) ethashEpoch) unknownAlgoMessage.params).run
        .working = .ok (false, next) ∧ ¬ JobUntouched .working next := by
  refine ⟨_, rfl, fun untouched => ?_⟩
  exact absurd (congrArg PoolJob.blobLen untouched.myJob) (by decide)

end EpicMiner.EventLoop
