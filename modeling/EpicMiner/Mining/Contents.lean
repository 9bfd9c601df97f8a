import EpicMiner.Mining.Coherence
import EpicMiner.Mining.Machine
import Mathlib.Data.Fintype.Basic

/-!
Owns what the datasets hold while miners hash. The identifiers agree with the
contents as long as no builder overwrites contents that are announced, and every
builder publishes the identifier of what it built.
-/

namespace EpicMiner.Mining

open EpicMiner.Library
open EpicMiner.Data

variable {ι : Type}

/-! ## The condition -/

/-- A miner of the current job has read that a dataset is ready for its
identifier, and is about to obtain the lock. -/
def Thread.Admitted (thread : Thread) (published : PublishedJobs) (ref : DatasetRef)
    (id : UInt64) : Prop :=
  thread.phase = .lockShared ∧ thread.lastJob = published.current ∧
    thread.currentJob.ds = some ref ∧ thread.currentJob.datasetId = id

namespace State

/-- The identifiers that miners rely on: the one of the current job, and
`loaded_id` for a job to come. -/
def awaited (state : State ι) (ref : DatasetRef) : List UInt64 :=
  let current :=
    if state.currentJob.ds = some ref then [state.currentJob.datasetId] else []
  ((state.datasets ref).loadedId :: current).filter (· ≠ invalidId)

theorem datasetId_mem_awaited {state : State ι} {ref : DatasetRef}
    (ds : state.currentJob.ds = some ref) (valid : state.currentJob.datasetId ≠ invalidId) :
    state.currentJob.datasetId ∈ state.awaited ref := by
  simp [awaited, ds, valid]

theorem loadedId_mem_awaited {state : State ι} {ref : DatasetRef}
    (valid : (state.datasets ref).loadedId ≠ invalidId) :
    (state.datasets ref).loadedId ∈ state.awaited ref := by
  simp [awaited, valid]

/-- `ready_id` says that a dataset is built for an identifier, or a miner acts on
having read so. -/
def Announced (state : State ι) (ref : DatasetRef) (id : UInt64) : Prop :=
  (state.datasets ref).readyId = id ∨
    ∃ miner, (state.threads miner).Admitted state.published ref id

/-- A builder overwrites no contents that are announced to miners, and finds the
seed it built from when it reads the identifier to publish. -/
def BuilderOrderly (state : State ι) (ref : DatasetRef) (builder : Builder (Key ref)) : Prop :=
  match builder.phase with
  | .build key =>
      ∀ id ∈ state.awaited ref, state.Announced ref id → (sourceOf ref).getId key = id
  | .readId =>
      ∀ built ∈ (state.datasets ref).contents,
        (sourceOf ref).getId built =
          (sourceOf ref).getId ((state.datasets ref).keyOf (sourceOf ref) builder)
  | _ => True

def Identified : SharedOp → Prop
  | .publish job => job.ds ≠ none → job.datasetId ≠ invalidId
  | _ => True

/-- The identifier of a seed has 63 bits, so only a ProgPow job can ask for
`invalid_id`. -/
theorem identified_randomx (getEpochNumber : Int32 → Int32) {job : PoolJob}
    (type : job.type = .randomx) : Identified (.publish (.published getEpochNumber job)) := by
  intro _
  rw [MinerJob.published, type]
  exact V32.getId_ne_allOnes job.randomxSeed

/-- Builders and published jobs are in order. -/
def Orderly (state : State ι) : Input ι → Prop
  | .event => ∀ op ∈ state.script.head?, Identified op
  | .builder ref index =>
      ∀ builder ∈ (state.datasets ref).builders[index]?, state.BuilderOrderly ref builder
  | _ => True

end State

/-! ## Jobs to come -/

/-- Every job that a script publishes has the identifier requested last for its
dataset. -/
def Coming (getEpochNumber : Int32 → Int32) :
    List SharedOp → ((ref : DatasetRef) → UInt64) → Prop
  | [], _ => True
  | .adjustToSeed seed :: rest, requested =>
      Coming getEpochNumber rest (Function.update requested .randomxDataset seed.getId)
  | .adjustToBlock height :: rest, requested =>
      Coming getEpochNumber rest
        (Function.update requested .progpowDataset (epochOf getEpochNumber height))
  | .publish job :: rest, requested =>
      (∀ ref, job.ds = some ref → job.datasetId = requested ref) ∧
        Coming getEpochNumber rest requested
  | .publishIdle :: rest, requested => Coming getEpochNumber rest requested
  | .storeNonce :: rest, requested => Coming getEpochNumber rest requested

/-- The event loop requests both datasets of a job before it publishes the job. -/
theorem coming_script (getEpochNumber : Int32 → Int32) (happening : Happening)
    (requested : DatasetRef → UInt64) :
    Coming getEpochNumber (happening.script getEpochNumber) requested := by
  cases happening with
  | rejected => trivial
  | netOnError => trivial
  | netOnClose => trivial
  | accepted job =>
      refine ⟨fun ref ds => ?_, trivial⟩
      unfold MinerJob.published at ds ⊢
      split at ds <;> cases ds <;> rfl

/-! ## Threads -/

/-- How a miner thread stands to the published jobs and the datasets. -/
structure Follows (published : PublishedJobs) (datasets : (ref : DatasetRef) → Dataset ι (Key ref))
    (miner : ι) (thread : Thread) : Prop where
  behind : thread.phase ≠ .load → thread.lastJob ≤ published.current
  same : thread.phase ≠ .load → thread.lastJob = published.current →
    thread.currentJob.ds = published.currentJob.ds ∧
      thread.currentJob.datasetId = published.currentJob.datasetId
  reading : thread.phase ∈ [.loopHead, .nextNonce, .hash, .unlockShared] →
    ∀ ref, thread.currentJob.ds = some ref → miner ∈ (datasets ref).readers
  contents : thread.phase ∈ [.lockShared, .loopHead, .nextNonce, .hash] →
    thread.lastJob = published.current →
      ∃ ref, thread.currentJob.ds = some ref ∧
        (datasets ref).BuiltFor (sourceOf ref) thread.currentJob.datasetId

namespace Follows

variable {published : PublishedJobs} {datasets : (ref : DatasetRef) → Dataset ι (Key ref)}
  {miner : ι} {thread : Thread}

theorem frame (follows : Follows published datasets miner thread) {ref : DatasetRef}
    {dataset : Dataset ι (Key ref)} (contents : dataset.contents = (datasets ref).contents)
    (readers : miner ∈ (datasets ref).readers → miner ∈ dataset.readers) :
    Follows published (Function.update datasets ref dataset) miner thread where
  behind := follows.behind
  same := follows.same
  reading := by
    intro phase
    refine (Function.forall_update_iff datasets fun other dataset =>
      thread.currentJob.ds = some other → miner ∈ dataset.readers).mpr
        ⟨fun ds => ?_, fun other _ => ?_⟩
    · exact readers (follows.reading phase ref ds)
    · exact follows.reading phase other
  contents := by
    intro phase current
    obtain ⟨other, ds, key, holds, builtFor⟩ := follows.contents phase current
    have same : (Function.update datasets ref dataset other).contents = (datasets other).contents :=
      (Function.forall_update_iff datasets fun other dataset =>
        dataset.contents = (datasets other).contents).mpr ⟨contents, fun _ _ => rfl⟩ other
    exact ⟨other, ds, key, same.trans holds, builtFor⟩

/-- Once another job is published, the thread's job is not the current one any
more. -/
theorem publish (follows : Follows published datasets miner thread) (job : MinerJob) :
    Follows (published.publish job) datasets miner thread := by
  have older : thread.phase ≠ .load → thread.lastJob < (published.publish job).current :=
    fun phase => Nat.lt_of_le_of_lt (follows.behind phase) published.current_lt
  refine ⟨fun phase => Nat.le_of_lt (older phase), ?_, follows.reading, ?_⟩
  · intro phase current
    exact absurd current (Nat.ne_of_lt (older phase))
  · intro phase current
    refine absurd current (Nat.ne_of_lt (older ?_))
    intro isLoad
    simp [isLoad] at phase

theorem move (follows : Follows published datasets miner thread) {moved : Thread}
    (begun : thread.phase ≠ .load) (lastJob : moved.lastJob = thread.lastJob)
    (ds : moved.currentJob.ds = thread.currentJob.ds)
    (datasetId : moved.currentJob.datasetId = thread.currentJob.datasetId)
    (reading : moved.phase ∈ [.loopHead, .nextNonce, .hash, .unlockShared] →
      ∀ ref, thread.currentJob.ds = some ref → miner ∈ (datasets ref).readers)
    (contents : moved.phase ∈ [.lockShared, .loopHead, .nextNonce, .hash] →
      thread.lastJob = published.current →
        ∃ ref, thread.currentJob.ds = some ref ∧
          (datasets ref).BuiltFor (sourceOf ref) thread.currentJob.datasetId) :
    Follows published datasets miner moved where
  behind := fun _ => lastJob ▸ follows.behind begun
  same := by
    rw [lastJob, ds, datasetId]
    exact fun _ => follows.same begun
  reading := by
    rw [ds]
    exact reading
  contents := by
    rw [lastJob, ds, datasetId]
    exact contents

theorem moveWithNonce (follows : Follows published datasets miner thread)
    (begun : thread.phase ≠ .load) (nonce : UInt32) {phase : Phase}
    (reading : phase ∈ [.loopHead, .nextNonce, .hash, .unlockShared] →
      ∀ ref, thread.currentJob.ds = some ref → miner ∈ (datasets ref).readers)
    (contents : phase ∈ [.lockShared, .loopHead, .nextNonce, .hash] →
      thread.lastJob = published.current →
        ∃ ref, thread.currentJob.ds = some ref ∧
          (datasets ref).BuiltFor (sourceOf ref) thread.currentJob.datasetId) :
    Follows published datasets miner ((thread.withNonce nonce).goto phase) := by
  refine follows.move begun (Thread.withNonce_lastJob _ _) ?_ ?_ reading contents
  · rw [Thread.goto_currentJob, Thread.withNonce_currentJob]
  · rw [Thread.goto_currentJob, Thread.withNonce_currentJob]

theorem hash (follows : Follows published datasets miner thread)
    (phase : thread.phase = .nextNonce) (nonce : UInt32) :
    Follows published datasets miner ((thread.withNonce nonce).goto .hash) := by
  refine follows.moveWithNonce (by simp [phase]) nonce (fun _ => ?_) fun _ => ?_
  · exact follows.reading (by simp [phase])
  · exact follows.contents (by simp [phase])

theorem lockShared (follows : Follows published datasets miner thread)
    (phase : thread.phase = .lockShared) {ref : DatasetRef}
    (ds : thread.currentJob.ds = some ref) :
    Follows published (Function.update datasets ref
      { datasets ref with readers := miner :: (datasets ref).readers }) miner
        ((thread.withNonce 0).goto .loopHead) := by
  have locked : Follows published (Function.update datasets ref
      { datasets ref with readers := miner :: (datasets ref).readers }) miner thread :=
    follows.frame rfl fun reads => .tail _ reads
  refine locked.moveWithNonce (by simp [phase]) 0 (fun _ other dsOther => ?_) fun _ => ?_
  · cases ds.symm.trans dsOther
    rw [Function.update_self]
    exact .head _
  · exact locked.contents (by simp [phase])

theorem ofLoad (phase : thread.phase = .load) : Follows published datasets miner thread where
  behind := fun begun => absurd phase begun
  same := fun begun => absurd phase begun
  reading := by simp [phase]
  contents := by simp [phase]

theorem load (published : PublishedJobs) (datasets : (ref : DatasetRef) → Dataset ι (Key ref))
    (miner : ι) (thread : Thread) : Follows published datasets miner (thread.load published) where
  behind := fun _ => Nat.le_refl published.current
  same := fun _ _ => ⟨rfl, rfl⟩
  reading := by
    unfold Thread.load
    dsimp only
    split <;> simp
  contents := by
    unfold Thread.load
    dsimp only
    split <;> simp

end Follows

/-! ## Steps -/

/-- Miners of the current job find the contents that they are told to find. -/
structure Provided (getEpochNumber : Int32 → Int32) (state : State ι) : Prop where
  datasets : ∀ ref, (state.datasets ref).Coherent (sourceOf ref)
  coming : Coming getEpochNumber state.script
    fun ref => (state.datasets ref).requestedId (sourceOf ref)
  current : ∀ ref, state.currentJob.ds = some ref → state.currentJob.datasetId ≠ invalidId ∧
    (state.datasets ref).Truthful (sourceOf ref) state.currentJob.datasetId
  threads : ∀ miner, Follows state.published state.datasets miner (state.threads miner)

namespace Provided

variable {getEpochNumber : Int32 → Int32} {state : State ι}

theorem record (provided : Provided getEpochNumber state) (nonce : UInt32) (event : MiningEvent ι) :
    Provided getEpochNumber ({ state with nonce := nonce }.record event) :=
  { provided with }

theorem publish {job : MinerJob} (provided : Provided getEpochNumber state) {rest : List SharedOp}
    (coming : Coming getEpochNumber rest
      fun ref => (state.datasets ref).requestedId (sourceOf ref))
    (known : ∀ ref, job.ds = some ref → job.datasetId ≠ invalidId ∧
      (state.datasets ref).Truthful (sourceOf ref) job.datasetId) :
    Provided getEpochNumber
      { state with script := rest, published := state.published.publish job } where
  datasets := provided.datasets
  coming := coming
  current := by
    unfold State.currentJob
    rw [PublishedJobs.currentJob_publish]
    exact known
  threads := fun miner => (provided.threads miner).publish job

theorem withDataset {ref : DatasetRef} {dataset : Dataset ι (Key ref)} {rest : List SharedOp}
    {threads : ι → Thread}
    (provided : Provided getEpochNumber state) (coherent : dataset.Coherent (sourceOf ref))
    (coming : Coming getEpochNumber rest
      (Function.update (fun ref => (state.datasets ref).requestedId (sourceOf ref)) ref
        (dataset.requestedId (sourceOf ref))))
    (truthful : ∀ id ∈ state.awaited ref, (state.datasets ref).Truthful (sourceOf ref) id →
      dataset.Truthful (sourceOf ref) id)
    (follows : ∀ miner, Follows state.published (Function.update state.datasets ref dataset) miner
      (threads miner)) :
    Provided getEpochNumber
      ({ state with script := rest, threads := threads }.withDataset ref dataset) where
  datasets :=
    (Function.forall_update_iff state.datasets
      fun ref dataset => dataset.Coherent (sourceOf ref)).mpr
        ⟨coherent, fun other _ => provided.datasets other⟩
  coming := by
    have requested : (fun other => (Function.update state.datasets ref dataset other).requestedId
        (sourceOf other)) = Function.update
          (fun other => (state.datasets other).requestedId (sourceOf other)) ref
            (dataset.requestedId (sourceOf ref)) :=
      funext fun other => Function.apply_update
        (fun other dataset => Dataset.requestedId (sourceOf other) dataset) ..
    exact requested ▸ coming
  current := by
    refine (Function.forall_update_iff state.datasets fun other dataset =>
      state.currentJob.ds = some other → state.currentJob.datasetId ≠ invalidId ∧
        dataset.Truthful (sourceOf other) state.currentJob.datasetId).mpr
          ⟨fun ds => ?_, fun other _ => provided.current other⟩
    obtain ⟨valid, before⟩ := provided.current ref ds
    exact ⟨valid, truthful _ (State.datasetId_mem_awaited ds valid) before⟩
  threads := follows

theorem adjust (provided : Provided getEpochNumber state) (ref : DatasetRef) (key : Key ref)
    {rest : List SharedOp} (idle : (state.datasets ref).pending = [])
    (coming : Coming getEpochNumber rest
      (Function.update (fun ref => (state.datasets ref).requestedId (sourceOf ref)) ref
        ((sourceOf ref).getId key))) :
    Provided getEpochNumber
      ({ state with script := rest }.withDataset ref ((state.datasets ref).adjust key)) := by
  exact provided.withDataset ((provided.datasets ref).adjust key idle) coming
    (fun _ _ same => same) fun miner => (provided.threads miner).frame rfl fun reads => reads

theorem access {op : SharedOp} {rest : List SharedOp} (provided : Provided getEpochNumber state)
    (script : state.script = op :: rest) (idle : state.NoRequest)
    (orderly : state.Orderly .event) :
    Provided getEpochNumber ({ state with script := rest }.access getEpochNumber op) := by
  have coming := provided.coming
  rw [script] at coming
  cases op with
  | storeNonce => exact { provided with coming := coming }
  | adjustToSeed seed =>
      have none := List.isEmpty_iff.mp idle.1
      exact provided.adjust .randomxDataset seed none coming
  | adjustToBlock height =>
      have none := List.isEmpty_iff.mp idle.2
      exact provided.adjust .progpowDataset (epochOf getEpochNumber height) none coming
  | publish job =>
      refine provided.publish coming.2 fun ref ds => ?_
      have requested : job.datasetId = (state.datasets ref).requestedId (sourceOf ref) :=
        coming.1 ref ds
      have none : (state.datasets ref).pending = [] := by
        cases ref with
        | randomxDataset => exact List.isEmpty_iff.mp idle.1
        | progpowDataset => exact List.isEmpty_iff.mp idle.2
      rw [Dataset.requestedId, none, Dataset.loadedAfter] at requested
      have asks : job.ds ≠ .none → job.datasetId ≠ invalidId :=
        orderly (.publish job) (by rw [script]; rfl)
      have valid := asks (by simp [ds])
      refine ⟨valid, ?_⟩
      rw [requested] at valid ⊢
      exact (provided.datasets ref).loaded valid (by simp [none])
  | publishIdle =>
      unfold State.access
      dsimp only
      split
      · refine provided.publish coming fun ref ds => ?_
        cases ds
      · exact { provided with coming := coming }

theorem request (provided : Provided getEpochNumber state) {ref : DatasetRef}
    {dataset : Dataset ι (Key ref)}
    (stepped : (state.datasets ref).requestStep (sourceOf ref) = some dataset) :
    Provided getEpochNumber (state.withDataset ref dataset) := by
  obtain ⟨contents, readers, readyId⟩ := Dataset.keeps_of_requestStep stepped
  refine provided.withDataset ((provided.datasets ref).requestStep stepped) ?_ ?_ fun miner => ?_
  · rw [Dataset.requestedId_requestStep stepped, Function.update_eq_self]
    exact provided.coming
  · intro id awaited truthful ready
    have valid : id ≠ invalidId := by
      simpa using (List.mem_filter.mp awaited).2
    rcases readyId with same | invalid
    · obtain ⟨key, holds, builtFor⟩ := truthful (same ▸ ready)
      exact ⟨key, contents.trans holds, builtFor⟩
    · exact absurd (ready.symm.trans invalid) valid
  · refine (provided.threads miner).frame contents fun reads => ?_
    rwa [readers]

theorem keepContents (provided : Provided getEpochNumber state) {ref : DatasetRef}
    {dataset : Dataset ι (Key ref)} (coherent : dataset.Coherent (sourceOf ref))
    (pending : dataset.pending = (state.datasets ref).pending)
    (loadedId : dataset.loadedId = (state.datasets ref).loadedId)
    (contents : dataset.contents = (state.datasets ref).contents)
    (readers : dataset.readers = (state.datasets ref).readers)
    (truthful : ∀ id, (state.datasets ref).Truthful (sourceOf ref) id →
      dataset.Truthful (sourceOf ref) id) :
    Provided getEpochNumber (state.withDataset ref dataset) := by
  refine provided.withDataset coherent ?_ (fun id _ => truthful id) fun miner => ?_
  · rw [Dataset.requestedId, pending, loadedId]
    exact (Function.update_eq_self ref _).symm ▸ provided.coming
  · refine (provided.threads miner).frame contents fun reads => ?_
    rwa [readers]

theorem build (provided : Provided getEpochNumber state) {ref : DatasetRef} {index : Nat}
    {builder : Builder (Key ref)} {key : Key ref}
    (found : (state.datasets ref).builders[index]? = some builder)
    (phase : builder.phase = .build key) (orderly : state.BuilderOrderly ref builder)
    (coherent : ({ (state.datasets ref).advance index .readId with contents := some key } :
      Dataset ι (Key ref)).Coherent (sourceOf ref)) :
    Provided getEpochNumber (state.withDataset ref
      { (state.datasets ref).advance index .readId with contents := some key }) := by
  unfold State.BuilderOrderly at orderly
  rw [phase] at orderly
  have exclusive := (provided.datasets ref).exclusive
  have held : (state.datasets ref).holder ≠ none := by
    rw [(exclusive.holder index).mpr ⟨builder, found, by rw [phase]; trivial⟩]
    exact Option.some_ne_none index
  refine provided.withDataset coherent ?_ ?_ fun miner => ?_
  · exact (Function.update_eq_self ref _).symm ▸ provided.coming
  · intro id awaited _ ready
    exact ⟨key, rfl, orderly id awaited (.inl ready)⟩
  · have follows := provided.threads miner
    refine ⟨follows.behind, follows.same, ?_, fun inLoop current => ?_⟩
    · intro reading
      refine (Function.forall_update_iff state.datasets fun other dataset =>
        (state.threads miner).currentJob.ds = some other → miner ∈ dataset.readers).mpr
          ⟨follows.reading reading ref, fun other _ => follows.reading reading other⟩
    · obtain ⟨other, ds, builtFor⟩ := follows.contents inLoop current
      refine ⟨other, ds, ?_⟩
      by_cases same : other = ref
      · subst same
        rw [Function.update_self]
        refine ⟨key, rfl, ?_⟩
        have begun : (state.threads miner).phase ≠ .load := by
          intro isLoad
          simp [isLoad] at inLoop
        obtain ⟨sameDs, sameId⟩ := follows.same begun current
        rcases List.mem_cons.mp inLoop with admitted | reading
        · have dsCurrent : state.currentJob.ds = some other := sameDs ▸ ds
          have awaited := State.datasetId_mem_awaited dsCurrent (provided.current other dsCurrent).1
          exact orderly _ (sameId ▸ awaited) (.inr ⟨miner, admitted, current, ds, rfl⟩)
        · have reads := follows.reading (by simp at reading ⊢; tauto) other ds
          rw [exclusive.readers held] at reads
          cases reads
      · rw [Function.update_of_ne same]
        exact builtFor

/-- A builder overwrites no contents that a miner of the current job relies on. -/
theorem builder (provided : Provided getEpochNumber state) {ref : DatasetRef} {index : Nat}
    {dataset : Dataset ι (Key ref)}
    (stepped : (state.datasets ref).builderStep (sourceOf ref) index = some dataset)
    (orderly : state.Orderly (.builder ref index)) :
    Provided getEpochNumber (state.withDataset ref dataset) := by
  obtain ⟨builder, found, access⟩ := Dataset.access_of_builderStep (sourceOf ref) stepped
  have keeps : state.BuilderOrderly ref builder := orderly builder found
  have coherent : dataset.Coherent (sourceOf ref) := by
    refine (provided.datasets ref).access found access ?_ ?_
    · intro key phase valid ready
      unfold State.BuilderOrderly at keeps
      rw [phase] at keeps
      exact keeps _ (State.loadedId_mem_awaited valid) (.inl ready)
    · intro phase key contents
      unfold State.BuilderOrderly at keeps
      rw [phase] at keeps
      exact keeps key contents
  cases access with
  | lock phase free none => exact provided.keepContents coherent rfl rfl rfl rfl fun _ same => same
  | readKey phase => exact provided.keepContents coherent rfl rfl rfl rfl fun _ same => same
  | build key phase => exact provided.build found phase keeps coherent
  | readId phase => exact provided.keepContents coherent rfl rfl rfl rfl fun _ same => same
  | storeReady id phase =>
      refine provided.keepContents coherent rfl rfl rfl rfl fun _ _ ready => ?_
      exact ready ▸ (provided.datasets ref).stored index builder id found phase
  | unlock phase => exact provided.keepContents coherent rfl rfl rfl rfl fun _ same => same

end Provided

/-! ## Miners -/

namespace Provided

variable [DecidableEq ι] {getEpochNumber : Int32 → Int32} {state next : State ι} {miner : ι}

theorem withThread (provided : Provided getEpochNumber state) {thread : Thread}
    (follows : Follows state.published state.datasets miner thread) :
    Provided getEpochNumber (state.withThread miner thread) where
  datasets := provided.datasets
  coming := provided.coming
  current := provided.current
  threads :=
    (Function.forall_update_iff state.threads
      fun other thread => Follows state.published state.datasets other thread).mpr
        ⟨follows, fun other _ => provided.threads other⟩

theorem withReaders (provided : Provided getEpochNumber state) {ref : DatasetRef} {readers : List ι}
    {thread : Thread} (free : (state.datasets ref).holder ≠ none → readers = [])
    (others : ∀ other, other ≠ miner → other ∈ (state.datasets ref).readers → other ∈ readers)
    (follows : Follows state.published (Function.update state.datasets ref
      { state.datasets ref with readers := readers }) miner thread) :
    Provided getEpochNumber
      ((state.withDataset ref { state.datasets ref with readers := readers }).withThread miner
        thread) := by
  have before := provided.datasets ref
  have exclusive : ({ state.datasets ref with readers := readers } :
      Dataset ι (Key ref)).Exclusive := ⟨before.exclusive.holder, free⟩
  have coherent : ({ state.datasets ref with readers := readers } :
      Dataset ι (Key ref)).Coherent (sourceOf ref) :=
    before.frame exclusive before.pending rfl rfl rfl rfl fun head => head
  have replaced : Provided getEpochNumber
      ({ state with threads := Function.update state.threads miner thread }.withDataset ref
        { state.datasets ref with readers := readers }) := by
    refine provided.withDataset coherent ?_ (fun _ _ same => same) ?_
    · exact (Function.update_eq_self ref _).symm ▸ provided.coming
    · refine (Function.forall_update_iff state.threads fun other thread =>
        Follows state.published _ other thread).mpr ⟨follows, fun other differs => ?_⟩
      exact (provided.threads other).frame rfl (others other differs)
  exact replaced

theorem minerAccess (provided : Provided getEpochNumber state)
    (access : state.MinerAccess miner next) : Provided getEpochNumber next := by
  have follows := provided.threads miner
  cases access with
  | load phase => exact provided.withThread (.load ..)
  | rest phase => exact provided
  | wait phase before after =>
      refine provided.withThread (follows.move ?_ rfl rfl rfl ?_ ?_)
      · intro isLoad
        simp [isLoad] at before
      · intro reading
        simp at after reading
        rcases after with rfl | rfl | rfl <;> simp at reading
      · intro inLoop
        simp at after inLoop
        rcases after with rfl | rfl | rfl <;> simp at inLoop
  | ready ref phase ds ready =>
      refine provided.withThread (follows.move (by simp [phase]) rfl rfl rfl (by simp) ?_)
      intro _ current
      obtain ⟨sameDs, sameId⟩ := follows.same (by simp [phase]) current
      have truthful := (provided.current ref (sameDs ▸ ds)).2
      exact ⟨ref, ds, sameId ▸ truthful (ready.trans sameId)⟩
  | lockShared ref phase ds free fits =>
      exact provided.withReaders (fun held => absurd free held) (fun _ _ reads => .tail _ reads)
        (follows.lockShared phase ds)
  | goOn phase current =>
      refine provided.withThread (follows.move (by simp [phase]) rfl rfl rfl ?_ ?_)
      · exact fun _ => follows.reading (by simp [phase])
      · exact fun _ => follows.contents (by simp [phase])
  | stop phase changed => 
      refine provided.withThread (follows.move (by simp [phase]) rfl rfl rfl ?_ ?_)
      · exact fun _ => follows.reading (by simp [phase])
      · simp
  | claim phase claims => 
      have moved : Follows state.published state.datasets miner
          ((state.threads miner).claim state.nonce) := by
        exact follows.hash phase state.nonce
      exact (provided.withThread moved).record _ _
  | increment phase claims =>
      exact provided.withThread (follows.hash phase _)
  | hash phase => 
      have moved : Follows state.published state.datasets miner
          ((state.threads miner).goto .loopHead) := by
        refine follows.move (by simp [phase]) rfl rfl rfl ?_ ?_
        · exact fun _ => follows.reading (by simp [phase])
        · exact fun _ => follows.contents (by simp [phase])
      exact (provided.withThread moved).record _ _
  | unlockShared ref phase ds =>
      refine provided.withReaders (fun held => ?_) (fun other differs reads => ?_) ?_
      · rw [(provided.datasets ref).exclusive.readers held]
        rfl
      · exact (List.mem_erase_of_ne differs).mpr reads
      · exact .ofLoad rfl

theorem step (provided : Provided getEpochNumber state) {input : State.Input ι}
    (stepped : state.step getEpochNumber input = some next) (orderly : state.Orderly input) :
    Provided getEpochNumber next := by
  cases State.taken_of_step stepped with
  | happen happening =>
      exact { provided with coming := coming_script getEpochNumber happening _ }
  | event op rest script idle => exact provided.access script idle orderly
  | request ref dataset taken => exact provided.request taken
  | builder ref index dataset taken => exact provided.builder taken orderly
  | miner miner next access => exact provided.minerAccess access

end Provided

theorem provided_start [DecidableEq ι] (getEpochNumber : Int32 → Int32) {state : State ι}
    (initial : State.Initial state) : Provided getEpochNumber state := by
  obtain ⟨miners, seed, rfl⟩ := initial
  constructor
  case datasets =>
    intro ref
    cases ref with
    | randomxDataset => exact Dataset.coherent_start seed
    | progpowDataset => exact Dataset.coherent_start 0
  case coming => trivial
  case current => exact fun ref ds => nomatch ds
  case threads => exact fun miner => .ofLoad rfl

/-! ## Runs -/

/-- Where builders are orderly, a miner that hashes for the current job reads
contents built for the identifier of the job, and holds the lock. -/
theorem hash_contents [DecidableEq ι] (getEpochNumber : Int32 → Int32) (state : State ι)
    (reachable : (State.machine getEpochNumber).ReachableWhen
      (fun before input _ => before.Orderly input) state)
    (miner : ι) (hashing : (state.threads miner).phase = .hash)
    (current : (state.threads miner).lastJob = state.published.current) :
    ∃ ref, (state.threads miner).currentJob.ds = some ref ∧
      miner ∈ (state.datasets ref).readers ∧
        (state.datasets ref).BuiltFor (sourceOf ref)
          (state.threads miner).currentJob.datasetId := by
  have provided : Provided getEpochNumber state :=
    reachable.invariant (fun _ => provided_start getEpochNumber)
      fun _ _ _ _ provided stepped orderly => provided.step stepped orderly
  have follows := provided.threads miner
  obtain ⟨ref, ds, builtFor⟩ := follows.contents (by simp [hashing]) current
  exact ⟨ref, ds, follows.reading (by simp [hashing]) ref ds, builtFor⟩

/-! ## Two jobs -/

instance {κ : Type} (source : DatasetClass κ) (dataset : Dataset ι κ) (id : UInt64) :
    Decidable (dataset.BuiltFor source id) :=
  decidable_of_iff (∃ key ∈ dataset.contents, source.getId key = id) Iff.rfl

instance (thread : Thread) (published : PublishedJobs) (ref : DatasetRef) (id : UInt64) :
    Decidable (thread.Admitted published ref id) :=
  inferInstanceAs (Decidable (_ ∧ _ ∧ _ ∧ _))

instance [Fintype ι] (state : State ι) (ref : DatasetRef) (id : UInt64) :
    Decidable (state.Announced ref id) :=
  inferInstanceAs (Decidable (_ ∨ ∃ _, _))

instance [Fintype ι] (state : State ι) (ref : DatasetRef) (builder : Builder (Key ref)) :
    Decidable (state.BuilderOrderly ref builder) := by
  unfold State.BuilderOrderly
  split
  -- by going through the list, not through all identifiers
  · exact List.decidableBAll _ _
  · infer_instance
  · infer_instance

instance (op : SharedOp) : Decidable (State.Identified op) := by
  cases op <;> unfold State.Identified <;> infer_instance

instance [Fintype ι] (state : State ι) (input : State.Input ι) :
    Decidable (state.Orderly input) := by
  cases input <;> unfold State.Orderly <;> infer_instance

def AboutToHash (state : State ι) (miner : ι) : Prop :=
  (state.threads miner).phase = .hash ∧ (state.threads miner).lastJob = state.published.current

instance (state : State ι) (miner : ι) : Decidable (AboutToHash state miner) :=
  inferInstanceAs (Decidable (_ ∧ _))

theorem hash_contents_firstClaim :
    ∃ state : State Unit, AboutToHash state () ∧
      ∃ ref, (state.threads ()).currentJob.ds = some ref ∧
        () ∈ (state.datasets ref).readers ∧
          (state.datasets ref).BuiltFor (sourceOf ref) (state.threads ()).currentJob.datasetId := by
  have initial : State.Initial (State.start (fun _ : Unit => .rxCpuMiner) default) :=
    State.start_initial _ _
  have executed := Machine.execute_reachableWhen initial (State.step ethashEpoch) State.Orderly
    firstClaim (fun state => AboutToHash state ()) (by decide +kernel)
  generalize Machine.execute _ _ _ = state at executed
  obtain ⟨reachable, hashing, current⟩ := executed
  exact ⟨state, ⟨hashing, current⟩, hash_contents ethashEpoch state reachable () hashing current⟩

def otherSeed : V32 :=
  (default : V32).write32 0 1

/-- The event loop replaces the seed while the builder of the first one is at
work; the builder publishes the identifier of the second. -/
def seedReplaced : List (State.Input Unit) :=
  State.acceptance (eightBytePoolJob .randomx) 5 4 ++
    List.replicate 2 (.builder .randomxDataset 0) ++
    State.acceptance { eightBytePoolJob .randomx with randomxSeed := otherSeed } 5 1 ++
    List.replicate 4 (.builder .randomxDataset 0) ++ List.replicate 5 (.miner ())

/-- Two epochs are requested, and the second one is built first. A miner reads
that it is ready, and obtains the lock after the builder of the first epoch. -/
def epochOverwritten : List (State.Input Unit) :=
  State.acceptance { eightBytePoolJob .progpow with height := 30000 } 5 4 ++
    State.acceptance { eightBytePoolJob .progpow with height := 60000 } 1 4 ++
    List.replicate 6 (.builder .progpowDataset 1) ++ List.replicate 2 (.miner ()) ++
    List.replicate 6 (.builder .progpowDataset 0) ++ List.replicate 3 (.miner ())

/-- A miner is about to hash for the current job with contents that were not
built for it. -/
def Misled (state : State ι) (miner : ι) (ref : DatasetRef) : Prop :=
  AboutToHash state miner ∧ (state.threads miner).currentJob.ds = some ref ∧
    miner ∈ (state.datasets ref).readers ∧
    ¬ (state.datasets ref).BuiltFor (sourceOf ref) (state.threads miner).currentJob.datasetId

instance [DecidableEq ι] (state : State ι) (miner : ι) (ref : DatasetRef) :
    Decidable (Misled state miner ref) :=
  inferInstanceAs (Decidable (_ ∧ _ ∧ _ ∧ ¬ _))

theorem hash_contents_fails_twoJobs :
    (∃ state : State Unit, (State.machine ethashEpoch).Reachable state ∧
      Misled state () .randomxDataset) ∧
    ∃ state : State Unit, (State.machine ethashEpoch).Reachable state ∧
      Misled state () .progpowDataset :=
  ⟨⟨_, Machine.execute_reachable (State.start_initial (fun _ : Unit => .rxCpuMiner) default)
      (State.step ethashEpoch) seedReplaced (fun state => Misled state () .randomxDataset)
      (by decide +kernel)⟩,
    ⟨_, Machine.execute_reachable (State.start_initial (fun _ : Unit => .ppCpuMiner) default)
      (State.step ethashEpoch) epochOverwritten (fun state => Misled state () .progpowDataset)
      (by decide +kernel)⟩⟩

end EpicMiner.Mining
