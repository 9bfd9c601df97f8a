import EpicMiner.Library.Machine
import EpicMiner.Mining.Dataset

/-!
Owns the identifiers of one `pp_dataset` over any calls of `adjust_to_block` and
any order in which its builders obtain the mutex. A builder publishes its own
epoch, so that at rest `ready_id` is the epoch of the builder that came last,
and `loaded_id` that of the builder that was started last.
-/

namespace EpicMiner.Mining

open EpicMiner.Library
open EpicMiner.Data

namespace Dataset

variable {ι κ : Type}

def lastStarted (dataset : Dataset ι κ) : Option κ :=
  dataset.keys.getLast?

def lastGranted (dataset : Dataset ι κ) : Option κ :=
  dataset.granted.head?.bind fun index => dataset.keys[index]?

structure AtRest (dataset : Dataset ι κ) : Prop where
  pending : dataset.pending = []
  finished : ∀ builder ∈ dataset.builders, builder.phase = .finished

end Dataset

/-! ## The dataset as a machine -/

section Machine

variable {ι : Type} [DecidableEq ι]

inductive PpInput (ι : Type) where
  | adjustToBlock (height : UInt32)
  | request
  | builder (index : Nat)
  | lockShared (miner : ι)
  | unlockShared (miner : ι)

def ppStep (getEpochNumber : Int32 → Int32) (dataset : Dataset ι UInt64) :
    PpInput ι → Option (Dataset ι UInt64)
  | .adjustToBlock height =>
      if dataset.pending.isEmpty then some (dataset.adjust (epochOf getEpochNumber height))
      else none
  | .request => dataset.requestStep ppDataset
  | .builder index => dataset.builderStep ppDataset index
  | .lockShared miner => dataset.lockShared miner
  | .unlockShared miner =>
      if miner ∈ dataset.readers then some (dataset.unlockShared miner) else none

/-- `pp_dataset::pp_dataset`. -/
def PpInitial (dataset : Dataset ι UInt64) : Prop :=
  dataset = .start 0

omit [DecidableEq ι] in
theorem ppInitial_start : PpInitial (.start 0 : Dataset ι UInt64) := rfl

def ppMachine (getEpochNumber : Int32 → Int32) : Machine (Dataset ι UInt64) (PpInput ι) :=
  .ofPartial PpInitial (ppStep getEpochNumber)

end Machine

/-! ## Invariant -/

section Invariant

variable {ι : Type}

def BuilderPhase.Unpublished {κ : Type} : BuilderPhase κ → Prop
  | .unlock => False
  | .finished => False
  | _ => True

/-- Nothing was requested, or a builder is still to publish, or the last one at
the mutex has published. -/
def Served (dataset : Dataset ι UInt64) : Prop :=
  dataset.keys = [] ∨
    (∃ (index : Nat) (builder : Builder UInt64), dataset.builders[index]? = some builder ∧
      builder.phase.Unpublished) ∨
    dataset.lastGranted = some dataset.readyId

/-- How far the event loop is with a request. -/
inductive Stage (dataset : Dataset ι UInt64) : Prop
  | settled :
      (dataset.pending = [] ∨ (∃ epoch, dataset.pending = [.compare epoch]) ∨
        ∃ epoch, dataset.pending = [.storeLoaded epoch, .invalidate, .spawn epoch]) →
      (dataset.keys ≠ [] → dataset.lastStarted = some dataset.loadedId) → Served dataset →
      Stage dataset
  | loaded : dataset.pending = [.invalidate, .spawn dataset.loadedId] → Stage dataset
  | invalidated : dataset.pending = [.spawn dataset.loadedId] → Stage dataset

/-- What holds of a `pp_dataset` after every access. -/
structure Consistent (dataset : Dataset ι UInt64) : Prop where
  exclusive : dataset.Exclusive
  granted : ∀ index, dataset.holder = some index → dataset.granted.head? = some index
  ids : ∀ (index : Nat) (builder : Builder UInt64) (id : UInt64),
    dataset.builders[index]? = some builder →
    builder.phase = .storeReady id → id = builder.key
  stage : Stage dataset

theorem consistent_start (epoch : UInt64) : Consistent (.start epoch : Dataset ι UInt64) where
  exclusive := Dataset.exclusive_start epoch
  granted := by simp [Dataset.start]
  ids := by simp [Dataset.start]
  stage := .settled (.inl rfl) (fun started => absurd rfl started) (.inl rfl)

theorem Stage.congr {dataset next : Dataset ι UInt64} (stage : Stage dataset)
    (pending : next.pending = dataset.pending) (loadedId : next.loadedId = dataset.loadedId)
    (keys : next.keys = dataset.keys) (served : Served dataset → Served next) : Stage next := by
  cases stage with
  | settled request started before =>
      refine .settled (pending ▸ request) ?_ (served before)
      rw [Dataset.lastStarted, keys, loadedId]
      exact started
  | loaded request => exact .loaded (by rw [pending, loadedId, request])
  | invalidated request => exact .invalidated (by rw [pending, loadedId, request])

theorem getElem?_keys {dataset : Dataset ι UInt64} {index : Nat} {builder : Builder UInt64}
    (found : dataset.builders[index]? = some builder) :
    dataset.keys[index]? = some builder.key := by
  simp [Dataset.keys, found]

/-- Before a builder publishes, it is still to publish; when it does, it is the
last one at the mutex. -/
theorem Served.access {dataset next : Dataset ι UInt64} {index : Nat} {builder : Builder UInt64}
    (consistent : Consistent dataset) (found : dataset.builders[index]? = some builder)
    (access : Dataset.Access ppDataset dataset index builder next) (served : Served dataset) :
    Served next := by
  have goesOn : ∀ (phase : BuilderPhase UInt64) {moved : Dataset ι UInt64}, phase.Unpublished →
      moved.builders = (dataset.advance index phase).builders → Served moved := by
    intro phase moved unpublished builders
    refine .inr (.inl ⟨index, { builder with phase := phase }, ?_, unpublished⟩)
    rw [builders, Dataset.getElem?_advance, found]
    simp
  cases access with
  | lock phase free none => exact goesOn .readKey trivial rfl
  | readKey phase => exact goesOn (.build _) trivial rfl
  | build key phase => exact goesOn .readId trivial rfl
  | readId phase => exact goesOn (.storeReady _) trivial rfl
  | storeReady id phase =>
      have held : dataset.holder = some index :=
        (consistent.exclusive.holder index).mpr ⟨builder, found, by simp [phase, BuilderPhase.Holds]⟩
      refine .inr (.inr ?_)
      rw [consistent.ids index builder id found phase]
      change (dataset.granted.head?.bind fun other => (dataset.advance index .unlock).keys[other]?) = _
      rw [consistent.granted index held, Dataset.keys_advance]
      exact getElem?_keys found
  | unlock phase =>
      have keys : ({ dataset.advance index .finished with holder := none } : Dataset ι UInt64).keys =
          dataset.keys := Dataset.keys_advance index .finished dataset
      rcases served with never | ⟨other, another, foundOther, unpublished⟩ | published
      · exact .inl (keys.trans never)
      · refine .inr (.inl ⟨other, another, ?_, unpublished⟩)
        have differs : index ≠ other := by
          rintro rfl
          rw [found] at foundOther
          cases foundOther
          rw [phase] at unpublished
          exact unpublished
        change (dataset.advance index .finished).builders[other]? = _
        rw [Dataset.getElem?_advance, foundOther]
        simp [differs]
      · refine .inr (.inr ?_)
        rw [Dataset.lastGranted, keys]
        exact published

theorem Consistent.access {dataset next : Dataset ι UInt64} {index : Nat}
    {builder : Builder UInt64} (consistent : Consistent dataset)
    (found : dataset.builders[index]? = some builder)
    (access : Dataset.Access ppDataset dataset index builder next) : Consistent next := by
  have ids : ∀ (phase : BuilderPhase UInt64), (∀ id, phase = .storeReady id → id = builder.key) →
      ∀ (other : Nat) (another : Builder UInt64) (id : UInt64),
        (dataset.advance index phase).builders[other]? = some another →
        another.phase = .storeReady id → id = another.key := by
    intro phase own other another id foundOther stores
    rw [Dataset.getElem?_advance] at foundOther
    obtain ⟨before, foundBefore, rfl⟩ := Option.map_eq_some_iff.mp foundOther
    by_cases same : index = other
    · subst same
      rw [found] at foundBefore
      cases foundBefore
      simp only [if_true] at stores ⊢
      exact own id stores
    · rw [if_neg same] at stores ⊢
      exact consistent.ids other before id foundBefore stores
  have exclusive := consistent.exclusive.access ppDataset found access
  have served := Served.access consistent found access
  cases access with
  | lock phase free none =>
      refine ⟨exclusive, ?_, ids _ (by simp), consistent.stage.congr rfl rfl ?_ served⟩
      · rintro other same
        cases same
        rfl
      · exact Dataset.keys_advance index _ dataset
  | readKey phase =>
      exact ⟨exclusive, consistent.granted, ids _ (by simp),
        consistent.stage.congr rfl rfl (Dataset.keys_advance index _ dataset) served⟩
  | build key phase =>
      exact ⟨exclusive, consistent.granted, ids _ (by simp),
        consistent.stage.congr rfl rfl (Dataset.keys_advance index _ dataset) served⟩
  | readId phase =>
      refine ⟨exclusive, consistent.granted, ids _ ?_,
        consistent.stage.congr rfl rfl (Dataset.keys_advance index _ dataset) served⟩
      rintro id same
      cases same
      rfl
  | storeReady id phase =>
      exact ⟨exclusive, consistent.granted, ids _ (by simp),
        consistent.stage.congr rfl rfl (Dataset.keys_advance index _ dataset) served⟩
  | unlock phase =>
      exact ⟨exclusive, by simp, ids _ (by simp),
        consistent.stage.congr rfl rfl (Dataset.keys_advance index _ dataset) served⟩

theorem Consistent.frame {dataset next : Dataset ι UInt64} (consistent : Consistent dataset)
    (builders : next.builders = dataset.builders) (holder : next.holder = dataset.holder)
    (readers : next.holder ≠ none → next.readers = []) (granted : next.granted = dataset.granted)
    (stage : Stage next) : Consistent next where
  exclusive := ⟨by rw [holder, builders]; exact consistent.exclusive.holder, readers⟩
  granted := by
    rw [holder, granted]
    exact consistent.granted
  ids := by
    rw [builders]
    exact consistent.ids
  stage := stage

theorem Served.frame {dataset next : Dataset ι UInt64} (served : Served dataset)
    (builders : next.builders = dataset.builders) (granted : next.granted = dataset.granted)
    (readyId : next.readyId = dataset.readyId) : Served next := by
  unfold Served Dataset.lastGranted Dataset.keys at *
  rwa [builders, granted, readyId]

theorem Consistent.requestStep {dataset next : Dataset ι UInt64} (consistent : Consistent dataset)
    (stepped : dataset.requestStep ppDataset = some next) : Consistent next := by
  have readers := consistent.exclusive.readers
  cases consistent.stage with
  | settled request started served =>
      rcases request with none | ⟨epoch, asked⟩ | ⟨epoch, calculating⟩
      · simp [Dataset.requestStep, none] at stepped
      · simp only [Dataset.requestStep, asked, Dataset.request, Option.some.injEq] at stepped
        split at stepped
        · cases stepped
          exact consistent.frame rfl rfl readers rfl
            (.settled (.inr (.inr ⟨epoch, rfl⟩)) started (served.frame rfl rfl rfl))
        · cases stepped
          exact consistent.frame rfl rfl readers rfl
            (.settled (.inl rfl) started (served.frame rfl rfl rfl))
      · simp only [Dataset.requestStep, calculating, Dataset.request, Option.some.injEq] at stepped
        cases stepped
        exact consistent.frame rfl rfl readers rfl (.loaded rfl)
  | loaded request =>
      simp only [Dataset.requestStep, request, Dataset.request, Option.some.injEq] at stepped
      cases stepped
      exact consistent.frame rfl rfl readers rfl (.invalidated rfl)
  | invalidated request =>
      simp only [Dataset.requestStep, request, Dataset.request, Option.some.injEq] at stepped
      cases stepped
      have exclusive := consistent.exclusive.request ppDataset (.spawn dataset.loadedId)
      refine ⟨{ exclusive with }, consistent.granted, ?_, .settled (.inl rfl) (fun _ => ?_) ?_⟩
      · intro index builder id found stores
        rcases Dataset.getElem?_spawn.mp found with before | ⟨-, rfl⟩
        · exact consistent.ids index builder id before stores
        · cases stores
      · simp [Dataset.lastStarted, Dataset.keys]
      · refine .inr (.inl ⟨dataset.builders.length, ⟨dataset.loadedId, .lock⟩, ?_, trivial⟩)
        exact Dataset.getElem?_spawn.mpr (.inr ⟨rfl, rfl⟩)

end Invariant

section Runs

variable {ι : Type} [DecidableEq ι] {getEpochNumber : Int32 → Int32}

theorem Consistent.step {dataset next : Dataset ι UInt64} {input : PpInput ι}
    (consistent : Consistent dataset) (stepped : ppStep getEpochNumber dataset input = some next) :
    Consistent next := by
  have readers := consistent.exclusive.readers
  have stage := consistent.stage
  cases input with
  | adjustToBlock height =>
      simp only [ppStep] at stepped
      split at stepped
      case isFalse => cases stepped
      case isTrue idle =>
        cases stepped
        have none := List.isEmpty_iff.mp idle
        cases stage with
        | settled request started served =>
            exact consistent.frame rfl rfl readers rfl
              (.settled (.inr (.inl ⟨_, rfl⟩)) started (served.frame rfl rfl rfl))
        | loaded request =>
            rw [none] at request
            cases request
        | invalidated request =>
            rw [none] at request
            cases request
  | request => exact consistent.requestStep stepped
  | builder index =>
      obtain ⟨builder, found, access⟩ := Dataset.access_of_builderStep ppDataset stepped
      exact consistent.access found access
  | lockShared miner =>
      simp only [ppStep, Dataset.lockShared] at stepped
      split at stepped
      case isFalse => cases stepped
      case isTrue free =>
        cases stepped
        exact consistent.frame rfl rfl (fun held => absurd free held) rfl
          (stage.congr rfl rfl rfl fun served => served.frame rfl rfl rfl)
  | unlockShared miner =>
      simp only [ppStep] at stepped
      split at stepped
      case isFalse => cases stepped
      case isTrue reading =>
        cases stepped
        refine consistent.frame rfl rfl (fun held => ?_) rfl
          (stage.congr rfl rfl rfl fun served => served.frame rfl rfl rfl)
        have noReader := readers held
        rw [noReader] at reading
        cases reading

/-- At rest after at least one build, miners of the last requested epoch are let
go on exactly if the builder that obtained the mutex last was one of that epoch. -/
theorem ready_eq_loaded_iff (getEpochNumber : Int32 → Int32) (dataset : Dataset ι UInt64)
    (reachable : (ppMachine getEpochNumber).Reachable dataset) (rest : dataset.AtRest)
    (started : dataset.builders ≠ []) :
    dataset.readyId = dataset.loadedId ↔ dataset.lastGranted = dataset.lastStarted := by
  have consistent : Consistent dataset := by
    refine reachable.invariant ?_ fun _ _ _ _ consistent stepped _ => consistent.step stepped
    rintro _ rfl
    exact consistent_start 0
  cases consistent.stage with
  | settled request loaded served =>
      have some : dataset.keys ≠ [] := by simpa [Dataset.keys] using started
      rw [loaded some]
      rcases served with none | ⟨index, builder, found, unpublished⟩ | published
      · exact absurd none some
      · rw [rest.finished builder (List.mem_of_getElem? found)] at unpublished
        exact unpublished.elim
      · rw [published]
        simp
  | loaded request =>
      rw [rest.pending] at request
      cases request
  | invalidated request =>
      rw [rest.pending] at request
      cases request

end Runs

/-! ## Overlapping requests -/

instance {ι : Type} (dataset : Dataset ι UInt64) : Decidable dataset.AtRest :=
  decidable_of_iff
    (dataset.pending = [] ∧ ∀ builder ∈ dataset.builders, builder.phase = .finished)
    ⟨fun rest => ⟨rest.1, rest.2⟩, fun rest => ⟨rest.pending, rest.finished⟩⟩

/-- Two epochs are requested before a builder runs; then the builders run in the
given order. -/
def twoEpochs (first second : Nat) : List (PpInput Unit) :=
  [.adjustToBlock 30000, .request, .request, .request, .request,
    .adjustToBlock 60000, .request, .request, .request, .request] ++
    List.replicate 6 (.builder first) ++ List.replicate 6 (.builder second)

theorem ready_eq_loaded_iff_twoEpochs :
    ∃ dataset : Dataset Unit UInt64, (ppMachine ethashEpoch).Reachable dataset ∧
      dataset.AtRest ∧ dataset.loadedId = 2 ∧
      (dataset.readyId = dataset.loadedId ↔ dataset.lastGranted = dataset.lastStarted) := by
  obtain ⟨reachable, rest, started, loaded⟩ :=
    Machine.execute_reachable (ppInitial_start : PpInitial (.start 0 : Dataset Unit UInt64))
      (ppStep ethashEpoch) (twoEpochs 0 1)
      (fun dataset => dataset.AtRest ∧ dataset.builders ≠ [] ∧ dataset.loadedId = 2)
      (by decide +kernel)
  exact ⟨_, reachable, rest, loaded, ready_eq_loaded_iff ethashEpoch _ reachable rest started⟩

/-- The builder of the second epoch obtains the mutex first. At rest, miners of
the second epoch wait for an identifier that nobody will store. -/
theorem ready_ne_loaded_twoEpochs :
    ∃ dataset : Dataset Unit UInt64, (ppMachine ethashEpoch).Reachable dataset ∧
      dataset.AtRest ∧ dataset.builders ≠ [] ∧ dataset.loadedId = 2 ∧ dataset.readyId = 1 :=
  ⟨_, Machine.execute_reachable (ppInitial_start : PpInitial (.start 0 : Dataset Unit UInt64))
    (ppStep ethashEpoch) (twoEpochs 1 0)
    (fun dataset => dataset.AtRest ∧ dataset.builders ≠ [] ∧ dataset.loadedId = 2 ∧
      dataset.readyId = 1) (by decide +kernel)⟩

end EpicMiner.Mining
