import EpicMiner.Mining.Results

/-!
Owns the readiness test of `dataset_check_loop` against datasets that do not exist
yet. `ready_id` holds `invalid_id` until the first build has completed, so the
test says something about a job only if the job asks for another identifier.
-/

namespace EpicMiner.Mining

open EpicMiner.Library
open EpicMiner.Data

/-! ## Completed builds -/

/-- The builder has made the contents of its dataset. -/
def BuilderPhase.Made {κ : Type} : BuilderPhase κ → Prop
  | .readId | .storeReady _ | .unlock | .finished => True
  | _ => False

/-- The builder has said that its dataset is ready. -/
def BuilderPhase.Done {κ : Type} : BuilderPhase κ → Prop
  | .unlock | .finished => True
  | _ => False

namespace Dataset

variable {ι κ : Type} {source : DatasetClass κ} {dataset next : Dataset ι κ}

/-- A build of the dataset has completed, so `dataset_ptr` is not null. -/
structure HasBuilt (dataset : Dataset ι κ) : Prop where
  completed : ∃ builder ∈ dataset.builders, builder.phase.Done
  contents : dataset.contents ≠ none

/-- No identifier but the invalid one is ready before a build has completed. -/
structure Honest (dataset : Dataset ι κ) : Prop where
  ready : dataset.readyId ≠ invalidId → dataset.HasBuilt
  made : ∀ builder ∈ dataset.builders, builder.phase.Made → dataset.contents ≠ none

theorem honest_start (seed : κ) : (start seed : Dataset ι κ).Honest where
  ready := fun ready => absurd rfl ready
  made := by simp [start]

theorem HasBuilt.frame (built : dataset.HasBuilt)
    (builders : ∀ builder ∈ dataset.builders, builder ∈ next.builders)
    (contents : next.contents = dataset.contents) : next.HasBuilt where
  completed := by
    obtain ⟨builder, member, done⟩ := built.completed
    exact ⟨builder, builders builder member, done⟩
  contents := contents ▸ built.contents

/-- A request starts builders at most, and makes no identifier ready. -/
theorem request_cases (op : RequestOp κ) (dataset : Dataset ι κ) :
    (request source op dataset).contents = dataset.contents ∧
      ((request source op dataset).readyId = dataset.readyId ∨
        (request source op dataset).readyId = invalidId) ∧
      ((request source op dataset).builders = dataset.builders ∨
        ∃ key, (request source op dataset).builders = dataset.builders ++ [⟨key, .lock⟩]) := by
  cases op with
  | compare key =>
      unfold request
      dsimp only
      split <;> exact ⟨rfl, .inl rfl, .inl rfl⟩
  | storeLoaded key => exact ⟨rfl, .inl rfl, .inl rfl⟩
  | invalidate => exact ⟨rfl, .inr rfl, .inl rfl⟩
  | storeSeed key => exact ⟨rfl, .inl rfl, .inl rfl⟩
  | spawn key => exact ⟨rfl, .inl rfl, .inr ⟨key, rfl⟩⟩

theorem requestStep_eq (stepped : dataset.requestStep source = some next) :
    ∃ op rest, next = request source op { dataset with pending := rest } := by
  unfold requestStep at stepped
  split at stepped
  · cases stepped
  · cases stepped
    exact ⟨_, _, rfl⟩

theorem HasBuilt.requestStep (built : dataset.HasBuilt)
    (stepped : dataset.requestStep source = some next) : next.HasBuilt := by
  obtain ⟨op, rest, rfl⟩ := requestStep_eq stepped
  obtain ⟨contents, -, builders⟩ :=
    @request_cases _ _ source op { dataset with pending := rest }
  refine built.frame (fun builder member => ?_) contents
  rcases builders with same | ⟨key, added⟩
  · rw [same]
    exact member
  · rw [added]
    exact List.mem_append_left _ member

theorem Honest.requestStep (honest : dataset.Honest)
    (stepped : dataset.requestStep source = some next) : next.Honest := by
  have keeps : dataset.HasBuilt → next.HasBuilt := fun built => built.requestStep stepped
  obtain ⟨op, rest, rfl⟩ := requestStep_eq stepped
  obtain ⟨contents, ready, builders⟩ :=
    @request_cases _ _ source op { dataset with pending := rest }
  constructor
  · intro isReady
    rcases ready with same | invalid
    · exact keeps (honest.ready (same ▸ isReady))
    · exact absurd invalid isReady
  · intro builder member made
    rw [contents]
    rcases builders with same | ⟨key, added⟩
    · rw [same] at member
      exact honest.made builder member made
    · rw [added] at member
      rcases List.mem_append.mp member with old | started
      · exact honest.made builder old made
      · cases List.mem_singleton.mp started
        exact made.elim

/-! ## Builders -/

/-- The builders after one of them has moved on. -/
theorem mem_advance {index : Nat} {phase : BuilderPhase κ} {builder moved : Builder κ}
    (found : dataset.builders[index]? = some builder)
    (member : moved ∈ (dataset.advance index phase).builders) :
    moved = { builder with phase := phase } ∨ moved ∈ dataset.builders := by
  obtain ⟨other, isOther⟩ := List.mem_iff_getElem?.mp member
  rw [getElem?_advance] at isOther
  by_cases same : index = other
  · subst same
    rw [found] at isOther
    simp at isOther
    exact .inl isOther.symm
  · simp [same] at isOther
    exact .inr (List.mem_of_getElem? isOther)

theorem advance_self {index : Nat} {phase : BuilderPhase κ} {builder : Builder κ}
    (found : dataset.builders[index]? = some builder) :
    { builder with phase := phase } ∈ (dataset.advance index phase).builders := by
  refine List.mem_iff_getElem?.mpr ⟨index, ?_⟩
  rw [getElem?_advance, found]
  simp

/-- A builder that moves on is done afterwards, if it was before. -/
theorem HasBuilt.advance (built : dataset.HasBuilt) {index : Nat} {phase : BuilderPhase κ}
    {builder : Builder κ} (found : dataset.builders[index]? = some builder)
    (done : builder.phase.Done → phase.Done)
    (builders : next.builders = (dataset.advance index phase).builders)
    (contents : next.contents ≠ none) : next.HasBuilt where
  completed := by
    obtain ⟨finished, member, isDone⟩ := built.completed
    obtain ⟨other, isOther⟩ := List.mem_iff_getElem?.mp member
    rw [builders]
    by_cases same : index = other
    · subst same
      rw [found] at isOther
      cases isOther
      exact ⟨_, advance_self found, done isDone⟩
    · refine ⟨finished, List.mem_iff_getElem?.mpr ⟨other, ?_⟩, isDone⟩
      rw [getElem?_advance, isOther]
      simp [same]
  contents := contents

theorem HasBuilt.access (built : dataset.HasBuilt) {index : Nat} {builder : Builder κ}
    (found : dataset.builders[index]? = some builder)
    (access : Access source dataset index builder next) : next.HasBuilt := by
  cases access with
  | lock phase => exact built.advance found (by simp [phase, BuilderPhase.Done]) rfl built.contents
  | readKey phase =>
      exact built.advance found (by simp [phase, BuilderPhase.Done]) rfl built.contents
  | build key phase => exact built.advance found (by simp [phase, BuilderPhase.Done]) rfl nofun
  | readId phase =>
      exact built.advance found (by simp [phase, BuilderPhase.Done]) rfl built.contents
  | storeReady id phase =>
      have done : builder.phase.Done → (BuilderPhase.unlock : BuilderPhase κ).Done :=
        fun _ => trivial
      exact built.advance found done rfl built.contents
  | unlock phase =>
      have done : builder.phase.Done → (BuilderPhase.finished : BuilderPhase κ).Done :=
        fun _ => trivial
      exact built.advance found done rfl built.contents

/-- A builder that makes nothing ready moves on, with contents or without. -/
theorem Honest.advance (honest : dataset.Honest) {index : Nat} {phase : BuilderPhase κ}
    {builder : Builder κ} (found : dataset.builders[index]? = some builder)
    (builders : next.builders = (dataset.advance index phase).builders)
    (ready : next.readyId = dataset.readyId) (keeps : dataset.HasBuilt → next.HasBuilt)
    (contents : next.contents = none → dataset.contents = none)
    (made : phase.Made → next.contents ≠ none) : next.Honest where
  ready := fun isReady => keeps (honest.ready (ready ▸ isReady))
  made := by
    intro moved member isMade empty
    rw [builders] at member
    rcases mem_advance found member with rfl | old
    · exact made isMade empty
    · exact honest.made moved old isMade (contents empty)

theorem Honest.access (honest : dataset.Honest) {index : Nat} {builder : Builder κ}
    (found : dataset.builders[index]? = some builder)
    (access : Access source dataset index builder next) : next.Honest := by
  have keeps : dataset.HasBuilt → next.HasBuilt := fun built => built.access found access
  have member : builder ∈ dataset.builders := List.mem_of_getElem? found
  cases access with
  | lock phase => exact honest.advance found rfl rfl keeps id (by simp [BuilderPhase.Made])
  | readKey phase => exact honest.advance found rfl rfl keeps id (by simp [BuilderPhase.Made])
  | build key phase => exact honest.advance found rfl rfl keeps nofun fun _ => nofun
  | readId phase =>
      refine honest.advance found rfl rfl keeps id fun _ => honest.made builder member ?_
      simp [phase, BuilderPhase.Made]
  | storeReady id phase =>
      have made : dataset.contents ≠ none :=
        honest.made builder member (by simp [phase, BuilderPhase.Made])
      refine ⟨fun _ => ⟨⟨_, advance_self found, trivial⟩, made⟩, ?_⟩
      intro moved isMoved isMade
      rcases mem_advance found isMoved with rfl | old
      · exact made
      · exact honest.made moved old isMade
  | unlock phase =>
      refine honest.advance found rfl rfl keeps id fun _ => honest.made builder member ?_
      simp [phase, BuilderPhase.Made]

end Dataset

/-! ## Miners past the test -/

variable {ι : Type}

/-- `dataset_check_loop` has returned true. -/
def Thread.PastCheck (thread : Thread) : Prop :=
  thread.phase ∈ [.lockShared, .loopHead, .nextNonce, .hash, .unlockShared]

/-- The dataset of the thread's job has been built. -/
def Thread.Provided (thread : Thread) (datasets : (ref : DatasetRef) → Dataset ι (Key ref)) :
    Prop :=
  ∃ ref, thread.currentJob.ds = some ref ∧ (datasets ref).HasBuilt

/-- A thread past the test has a dataset, unless its job asks for the invalid
identifier. -/
def Thread.Cleared (thread : Thread) (datasets : (ref : DatasetRef) → Dataset ι (Key ref)) :
    Prop :=
  thread.PastCheck → thread.currentJob.datasetId ≠ invalidId → thread.Provided datasets

theorem Thread.Cleared.move {thread moved : Thread}
    {datasets : (ref : DatasetRef) → Dataset ι (Key ref)} (cleared : thread.Cleared datasets)
    (past : moved.PastCheck → thread.PastCheck)
    (ds : moved.currentJob.ds = thread.currentJob.ds)
    (datasetId : moved.currentJob.datasetId = thread.currentJob.datasetId) :
    moved.Cleared datasets := by
  intro isPast valid
  obtain ⟨ref, isRef, built⟩ := cleared (past isPast) (datasetId ▸ valid)
  exact ⟨ref, ds.trans isRef, built⟩

theorem Thread.Cleared.frame {thread : Thread}
    {before after : (ref : DatasetRef) → Dataset ι (Key ref)} (cleared : thread.Cleared before)
    (keeps : ∀ ref, (before ref).HasBuilt → (after ref).HasBuilt) : thread.Cleared after := by
  intro isPast valid
  obtain ⟨ref, isRef, built⟩ := cleared isPast valid
  exact ⟨ref, isRef, keeps ref built⟩

namespace State

variable [DecidableEq ι] {state next : State ι} {getEpochNumber : Int32 → Int32}

/-- What runs keep: the datasets are honest, and the threads past the test rely on
them. -/
structure Grounded (state : State ι) : Prop where
  datasets : ∀ ref, (state.datasets ref).Honest
  engaged : ∀ miner, Engaged state.published (state.threads miner)
  cleared : ∀ miner, (state.threads miner).Cleared state.datasets

omit [DecidableEq ι] in
theorem Grounded.withDatasets (grounded : Grounded state)
    (honest : ∀ ref, (next.datasets ref).Honest)
    (keeps : ∀ ref, (state.datasets ref).HasBuilt → (next.datasets ref).HasBuilt)
    (grows : ∀ (position : Nat) (job : MinerJob), state.published.jobs[position]? = some job →
      next.published.jobs[position]? = some job)
    (threads : next.threads = state.threads) : Grounded next where
  datasets := honest
  engaged := fun miner => threads ▸ (grounded.engaged miner).grow grows
  cleared := fun miner => threads ▸ (grounded.cleared miner).frame keeps

omit [DecidableEq ι] in
theorem Grounded.withDataset (grounded : Grounded state) {ref : DatasetRef}
    {dataset : Dataset ι (Key ref)} (honest : dataset.Honest)
    (keeps : (state.datasets ref).HasBuilt → dataset.HasBuilt) :
    Grounded (state.withDataset ref dataset) := by
  have each : ∀ other, (Function.update state.datasets ref dataset other).Honest ∧
      ((state.datasets other).HasBuilt →
        (Function.update state.datasets ref dataset other).HasBuilt) := by
    intro other
    by_cases same : other = ref
    · subst same
      simpa using ⟨honest, keeps⟩
    · rw [Function.update_of_ne same]
      exact ⟨grounded.datasets other, id⟩
  exact grounded.withDatasets (fun other => (each other).1) (fun other => (each other).2)
    (fun _ _ => id) rfl

omit [DecidableEq ι] in
theorem Grounded.access (grounded : Grounded state) (op : SharedOp) :
    Grounded (state.access getEpochNumber op) := by
  have grows : ∀ (position : Nat) (job : MinerJob),
      state.published.jobs[position]? = some job →
        (state.published.apply op).jobs[position]? = some job :=
    fun _ _ => PublishedJobs.getElem?_apply op
  have adjusted : ∀ (ref : DatasetRef) (key : Key ref),
      Grounded (state.withDataset ref ((state.datasets ref).adjust key)) := by
    intro ref key
    obtain ⟨ready, made⟩ := grounded.datasets ref
    exact grounded.withDataset
      ⟨fun isReady => ⟨(ready isReady).completed, (ready isReady).contents⟩, made⟩
      fun built => ⟨built.completed, built.contents⟩
  cases op with
  | storeNonce => exact ⟨grounded.datasets, grounded.engaged, grounded.cleared⟩
  | adjustToSeed seed => exact adjusted .randomxDataset seed
  | adjustToBlock height => exact adjusted .progpowDataset _
  | publish job => exact grounded.withDatasets grounded.datasets (fun _ => id) grows rfl
  | publishIdle =>
      unfold State.access
      dsimp only
      split
      · rename_i mining
        have published : state.published.apply .publishIdle = state.published.publish .idle :=
          if_pos mining
        exact grounded.withDatasets grounded.datasets (fun _ => id)
          (fun position job found => published ▸ grows position job found) rfl
      · exact grounded

/-- A miner changes nothing in a dataset but the holders of its mutex. -/
theorem MinerAccess.datasets {miner : ι} (access : state.MinerAccess miner next)
    (ref : DatasetRef) :
    ∃ readers, next.datasets ref = { state.datasets ref with readers := readers } := by
  have update : ∀ (changed : DatasetRef) (readers : List ι),
      ∃ readers', Function.update state.datasets changed
        { state.datasets changed with readers := readers } ref =
          { state.datasets ref with readers := readers' } := by
    intro changed readers
    by_cases same : ref = changed
    · subst same
      exact ⟨readers, Function.update_self ..⟩
    · exact ⟨(state.datasets ref).readers, Function.update_of_ne same ..⟩
  cases access with
  | lockShared changed => exact update changed _
  | unlockShared changed => exact update changed _
  | _ => exact ⟨(state.datasets ref).readers, rfl⟩

theorem MinerAccess.hasBuilt {miner : ι} (access : state.MinerAccess miner next)
    (ref : DatasetRef) (built : (state.datasets ref).HasBuilt) : (next.datasets ref).HasBuilt := by
  obtain ⟨readers, same⟩ := access.datasets ref
  rw [same]
  exact ⟨built.completed, built.contents⟩

/-- An access of a miner. Only the test itself lets a thread past it. -/
theorem MinerAccess.cleared {miner : ι} (access : state.MinerAccess miner next)
    (honest : ∀ ref, (state.datasets ref).Honest)
    (before : (state.threads miner).Cleared state.datasets) :
    (next.threads miner).Cleared next.datasets := by
  have moves : ∀ {moved : Thread}, (state.threads miner).PastCheck →
      moved.currentJob.ds = (state.threads miner).currentJob.ds →
      moved.currentJob.datasetId = (state.threads miner).currentJob.datasetId →
      moved.Cleared next.datasets :=
    fun past ds datasetId => (before.move (fun _ => past) ds datasetId).frame access.hasBuilt
  have nonceDs : ∀ nonce, ((state.threads miner).withNonce nonce).currentJob.ds =
      (state.threads miner).currentJob.ds :=
    fun nonce => by rw [Thread.withNonce_currentJob]
  have nonceId : ∀ nonce, ((state.threads miner).withNonce nonce).currentJob.datasetId =
      (state.threads miner).currentJob.datasetId :=
    fun nonce => by rw [Thread.withNonce_currentJob]
  cases access with
  | load phase =>
      simp only [withThread, Function.update_self]
      intro past
      unfold Thread.PastCheck Thread.load at past
      dsimp only at past
      split at past <;> simp at past
  | rest phase => exact before
  | wait after waits goes =>
      simp only [withThread, Function.update_self]
      intro past
      unfold Thread.PastCheck at past
      simp at goes
      rcases goes with rfl | rfl | rfl <;> simp at past
  | ready ref phase ds ready =>
      simp only [withThread, Function.update_self]
      intro _ valid
      exact ⟨ref, ds, (honest ref).ready (ready ▸ valid)⟩
  | lockShared ref phase ds free fits =>
      simp only [withThread, Function.update_self]
      exact moves (by simp [Thread.PastCheck, phase]) (nonceDs 0) (nonceId 0)
  | goOn phase current =>
      simp only [withThread, Function.update_self]
      exact moves (by simp [Thread.PastCheck, phase]) rfl rfl
  | stop phase changed =>
      simp only [withThread, Function.update_self]
      exact moves (by simp [Thread.PastCheck, phase]) rfl rfl
  | claim phase claims =>
      simp only [withThread, record, Function.update_self]
      have past : (state.threads miner).PastCheck := by simp [Thread.PastCheck, phase]
      exact before.move (fun _ => past) (nonceDs state.nonce) (nonceId state.nonce)
  | increment phase claims =>
      simp only [withThread, Function.update_self]
      exact moves (by simp [Thread.PastCheck, phase]) (nonceDs ((state.threads miner).nonce + 1))
        (nonceId ((state.threads miner).nonce + 1))
  | hash phase =>
      simp only [withThread, record, Function.update_self]
      exact moves (by simp [Thread.PastCheck, phase]) rfl rfl
  | unlockShared ref phase ds =>
      simp only [withThread, Function.update_self]
      exact moves (by simp [Thread.PastCheck, phase]) rfl rfl

theorem Grounded.step (grounded : Grounded state) {input : Input ι}
    (stepped : state.step getEpochNumber input = some next) : Grounded next := by
  cases taken_of_step stepped with
  | happen => exact ⟨grounded.datasets, grounded.engaged, grounded.cleared⟩
  | event op rest =>
      have continued : Grounded { state with script := rest } :=
        ⟨grounded.datasets, grounded.engaged, grounded.cleared⟩
      exact continued.access op
  | request ref dataset taken =>
      exact grounded.withDataset ((grounded.datasets ref).requestStep taken)
        fun built => built.requestStep taken
  | builder ref index dataset taken =>
      obtain ⟨builder, found, access⟩ := Dataset.access_of_builderStep _ taken
      exact grounded.withDataset ((grounded.datasets ref).access found access)
        fun built => built.access found access
  | miner miner next access =>
      refine ⟨fun ref => ?_, engaged_minerStep stepped grounded.engaged, fun other => ?_⟩
      · obtain ⟨readers, same⟩ := access.datasets ref
        obtain ⟨ready, made⟩ := grounded.datasets ref
        rw [same]
        exact ⟨fun isReady => ⟨(ready isReady).completed, (ready isReady).contents⟩, made⟩
      · by_cases same : other = miner
        · subst same
          exact access.cleared grounded.datasets (grounded.cleared other)
        · rw [access.frame.2.2 other same]
          exact (grounded.cleared other).frame access.hasBuilt

theorem reachable_grounded (reachable : (machine getEpochNumber).Reachable state) :
    Grounded state := by
  refine reachable.invariant ?_ fun _ _ _ _ grounded stepped _ => grounded.step stepped
  rintro start ⟨miners, seed, rfl⟩
  constructor
  case datasets =>
    intro ref
    cases ref <;> exact Dataset.honest_start _
  case engaged =>
    intro miner begun
    simp [start, Thread.start] at begun
  case cleared =>
    intro miner past
    simp [Thread.PastCheck, start, Thread.start] at past

end State

/-! ## Identifiers -/

/-- The height as the `int` that `get_epoch_number` takes. -/
theorem toInt_height (height : UInt32) : height.toInt32.toInt =
    if height.toNat < 2147483648 then (height.toNat : Int) else height.toNat - 4294967296 := by
  have signed : height.toInt32.toInt = (height.toNat : Int).bmod 4294967296 :=
    BitVec.toInt_eq_toNat_bmod height.toBitVec
  have bound := height.toNat_lt
  rw [signed, Int.bmod_def]
  split <;> split <;> omega

theorem toInt_ethashEpoch (height : UInt32) : (ethashEpoch height.toInt32).toInt =
    if height.toNat < 2147483648 then (height.toNat / 30000 : Int)
    else - ((4294967296 - height.toNat) / 30000) := by
  have bound := height.toNat_lt
  have divisor : (30000 : Int32).toInt = 30000 := by decide
  rw [ethashEpoch, Int32.toInt_div, divisor, toInt_height, Int.bmod_def]
  by_cases low : height.toNat < 2147483648
  · rw [if_pos low, if_pos low, Int.tdiv_eq_ediv_of_nonneg (by omega)]
    split <;> omega
  · have negated : (height.toNat - 4294967296 : Int) = - (4294967296 - height.toNat) := by omega
    rw [if_neg low, if_neg low, negated, Int.neg_tdiv, Int.tdiv_eq_ediv_of_nonneg (by omega)]
    split <;> omega

/-- The heights whose epoch is the invalid identifier. -/
theorem epochOf_eq_invalidId_iff (height : UInt32) : epochOf ethashEpoch height = invalidId ↔
    4294907297 ≤ height ∧ height ≤ 4294937296 := by
  have bound := height.toNat_lt
  have sentinel : ∀ epoch : Int32, epoch.toInt64.toUInt64 = invalidId ↔ epoch.toInt = -1 := by
    intro epoch
    rw [← epoch.toInt_toInt64]
    constructor
    · intro same
      rw [← Int64.toInt64_toUInt64 epoch.toInt64, same]
      decide
    · intro same
      rw [show epoch.toInt64 = -1 from Int64.toInt_inj.mp same]
      decide
  rw [epochOf, sentinel, toInt_ethashEpoch, UInt32.le_iff_toNat_le, UInt32.le_iff_toNat_le]
  have least : (4294907297 : UInt32).toNat = 4294907297 := by decide
  have greatest : (4294937296 : UInt32).toNat = 4294937296 := by decide
  rw [least, greatest]
  split <;> omega

theorem datasetId_ne_invalidId_iff {job : PoolJob}
    (mines : job.type = .randomx ∨ job.type = .progpow) :
    (MinerJob.published ethashEpoch job).datasetId ≠ invalidId ↔
      ¬ (job.type = .progpow ∧ 4294907297 ≤ job.height ∧ job.height ≤ 4294937296) := by
  rcases mines with randomx | progpow
  · have datasetId : (MinerJob.published ethashEpoch job).datasetId = job.randomxSeed.getId := by
      simp [MinerJob.published, randomx, MinerJob.ofPoolJob]
    rw [datasetId]
    simpa [randomx, invalidId] using job.randomxSeed.getId_ne_allOnes
  · have datasetId : (MinerJob.published ethashEpoch job).datasetId =
        epochOf ethashEpoch job.height := by
      simp [MinerJob.published, progpow, MinerJob.ofPoolJob]
    rw [datasetId, ne_eq, epochOf_eq_invalidId_iff]
    simp [progpow]

/-! ## Jobs -/

/-- No miner gets past the test for a job before a dataset has been built. -/
structure WaitsForBuild (job : PoolJob) : Prop where
  valid : (MinerJob.published ethashEpoch job).datasetId ≠ invalidId
  built : ∀ (ι : Type) [DecidableEq ι] (state : State ι),
    (State.machine ethashEpoch).Reachable state → ∀ miner,
      state.published.jobs[(state.threads miner).lastJob]? =
          some (.published ethashEpoch job) →
        (state.threads miner).PastCheck → (state.threads miner).Provided state.datasets

/-- The job is accepted first of all, and a miner of its type tests for it. -/
def firstTest (job : PoolJob) : List (State.Input Unit) :=
  State.acceptance job 5 1 ++ [.miner (), .miner ()]

/-- A job that asks for the invalid identifier starts no build, and passes the test. -/
theorem firstTest_passes {job : PoolJob} (progpow : job.type = .progpow)
    (invalid : epochOf ethashEpoch job.height = invalidId) :
    ∃ state : State Unit, (State.machine ethashEpoch).Reachable state ∧
      state.published.jobs[(state.threads ()).lastJob]? = some (.published ethashEpoch job) ∧
        (state.threads ()).PastCheck ∧ ¬ (state.threads ()).Provided state.datasets := by
  have seed : invalidId ≠ job.randomxSeed.getId := job.randomxSeed.getId_ne_allOnes.symm
  have ran : ∃ state : State Unit,
      Machine.runPartial (State.step ethashEpoch) (State.start (fun _ => .ppCpuMiner) default)
        (firstTest job) = some state ∧
      state.published.jobs[(state.threads ()).lastJob]? = some (.published ethashEpoch job) ∧
        (state.threads ()).PastCheck ∧
          (state.threads ()).currentJob.ds = some .progpowDataset ∧
            (state.datasets .progpowDataset).contents = none := by
    simp [firstTest, State.acceptance, Machine.runPartial, State.step, State.start,
      Happening.script, State.NoRequest, Dataset.start, State.eventStep, State.access,
      State.withDataset, Dataset.adjust, List.replicate, State.record, Dataset.requestStep,
      Dataset.request, sourceOf, rxDataset, ppDataset, Dataset.calculateDataset, seed, invalid,
      MinerJob.published, progpow, PublishedJobs.publish, PublishedJobs.initial,
      State.minerStep, Thread.start, State.withThread, Thread.load, PublishedJobs.currentJob,
      MinerJob.ofPoolJob, CpuMiner.powType, Thread.goto, Thread.PastCheck]
  obtain ⟨state, ran, current, past, ds, empty⟩ := ran
  refine ⟨state, Machine.reachable_of_runPartial _ (.start (State.start_initial _ _)) ran, current,
    past, ?_⟩
  rintro ⟨ref, isRef, built⟩
  cases ds.symm.trans isRef
  exact built.contents empty

/-- Miners wait for the first build of a dataset, unless the job is a ProgPow job whose
height gives the epoch -1. -/
theorem waitsForBuild_iff (job : PoolJob) (mines : job.type = .randomx ∨ job.type = .progpow) :
    WaitsForBuild job ↔
      ¬ (job.type = .progpow ∧ 4294907297 ≤ job.height ∧ job.height ≤ 4294937296) := by
  rw [← datasetId_ne_invalidId_iff mines]
  constructor
  · exact WaitsForBuild.valid
  · intro valid
    refine ⟨valid, ?_⟩
    intro ι _ state reachable miner current past
    have grounded := State.reachable_grounded reachable
    obtain ⟨copied, isCopied, works⟩ := grounded.engaged miner (by
      unfold Thread.PastCheck at past
      intro early
      simp at past early
      rcases early with phase | phase <;> simp [phase] at past)
    rw [current] at isCopied
    cases isCopied
    apply grounded.cleared miner past
    rw [works.copied]
    exact valid

theorem waitsForBuild_iff_lowHeight : WaitsForBuild (eightBytePoolJob .progpow) :=
  (waitsForBuild_iff (eightBytePoolJob .progpow) (by decide)).mpr (by decide)

/-- A job whose height, taken as an `int`, is -30000. -/
def negativeEpochJob : PoolJob :=
  { eightBytePoolJob .progpow with height := 4294937296 }

theorem negativeEpochJob_not_waitsForBuild : ¬ WaitsForBuild negativeEpochJob := by
  intro waits
  obtain ⟨state, reachable, current, past, unprovided⟩ :=
    @firstTest_passes negativeEpochJob rfl (by decide)
  exact unprovided (waits.built Unit state reachable () current past)

end EpicMiner.Mining
