import EpicMiner.Data.Job

/-!
Owns the datasets that the miners share: their atomic identifiers, the mutex,
the requests of the event loop and the detached builder threads. Every access
to memory that several threads use is one step.
-/

namespace EpicMiner.Mining

open EpicMiner.Library
open EpicMiner.Data

/-- How a dataset class names the contents it builds, and where its builder
finds what to build. -/
structure DatasetClass (κ : Type) where
  getId : κ → UInt64
  /-- The builder reads the member `seed`, and is not given a key of its own. -/
  readsSeed : Bool

/-- `rx_dataset`, whose key is a seed. -/
def rxDataset : DatasetClass V32 where
  getId := V32.getId
  readsSeed := true

/-- `pp_dataset`, whose key is an epoch. -/
def ppDataset : DatasetClass UInt64 where
  getId := id
  readsSeed := false

/-! ## State -/

inductive BuilderPhase (κ : Type) where
  | lock
  | readKey
  /-- Build from the key that was read. -/
  | build (key : κ)
  /-- Read the key to publish the identifier of. -/
  | readId
  | storeReady (id : UInt64)
  | unlock
  | finished
deriving DecidableEq

def BuilderPhase.Holds {κ : Type} : BuilderPhase κ → Prop
  | .lock => False
  | .finished => False
  | _ => True

structure Builder (κ : Type) where
  key : κ
  phase : BuilderPhase κ
deriving DecidableEq

/-- What is left to do of a call of `adjust_to_seed` or `adjust_to_block`. -/
inductive RequestOp (κ : Type) where
  | compare (key : κ)
  | storeLoaded (key : κ)
  | invalidate
  | storeSeed (key : κ)
  | spawn (key : κ)
deriving DecidableEq

/-- A dataset with the builders started for it, the holder of its mutex, and
what the event loop is doing with it. `seed` stands for nothing in a class whose
builders do not read it; `granted` records who held the mutex, latest first. -/
structure Dataset (ι κ : Type) where
  loadedId : UInt64
  readyId : UInt64
  seed : κ
  contents : Option κ
  builders : List (Builder κ)
  holder : Option Nat
  readers : List ι
  pending : List (RequestOp κ)
  granted : List Nat

namespace Dataset

variable {ι κ : Type} (source : DatasetClass κ)

def start (seed : κ) : Dataset ι κ where
  loadedId := invalidId
  readyId := invalidId
  seed := seed
  contents := none
  builders := []
  holder := none
  readers := []
  pending := []
  granted := []

/-! ## Requests -/

def adjust (key : κ) (dataset : Dataset ι κ) : Dataset ι κ :=
  { dataset with pending := [.compare key] }

def calculateDataset (key : κ) : List (RequestOp κ) :=
  if source.readsSeed then [.storeLoaded key, .invalidate, .storeSeed key, .spawn key]
  else [.storeLoaded key, .invalidate, .spawn key]

def request (op : RequestOp κ) (dataset : Dataset ι κ) : Dataset ι κ :=
  match op with
  | .compare key =>
      if dataset.loadedId ≠ source.getId key then
        { dataset with pending := calculateDataset source key ++ dataset.pending }
      else dataset
  | .storeLoaded key => { dataset with loadedId := source.getId key }
  | .invalidate => { dataset with readyId := invalidId }
  | .storeSeed key => { dataset with seed := key }
  | .spawn key => { dataset with builders := dataset.builders ++ [⟨key, .lock⟩] }

def requestStep (dataset : Dataset ι κ) : Option (Dataset ι κ) :=
  match dataset.pending with
  | [] => none
  | op :: rest => some (request source op { dataset with pending := rest })

/-! ## Builders -/

/-- The key that a builder reads. -/
def keyOf (dataset : Dataset ι κ) (builder : Builder κ) : κ :=
  if source.readsSeed then dataset.seed else builder.key

def advance (index : Nat) (phase : BuilderPhase κ) (dataset : Dataset ι κ) : Dataset ι κ :=
  { dataset with
    builders := dataset.builders.modify index fun builder => { builder with phase := phase } }

/-- One access of a builder in `dataset_thd_main`. -/
def builderStep (index : Nat) (dataset : Dataset ι κ) : Option (Dataset ι κ) := do
  let builder ← dataset.builders[index]?
  match builder.phase with
  | .lock =>
      if dataset.holder = none ∧ dataset.readers.isEmpty then
        some
          { dataset.advance index .readKey with
            holder := some index
            granted := index :: dataset.granted }
      else none
  | .readKey => some (dataset.advance index (.build (keyOf source dataset builder)))
  | .build key => some { dataset.advance index .readId with contents := some key }
  | .readId =>
      some (dataset.advance index (.storeReady (source.getId (keyOf source dataset builder))))
  | .storeReady id => some { dataset.advance index .unlock with readyId := id }
  | .unlock => some { dataset.advance index .finished with holder := none }
  | .finished => none

/-! ## Miners -/

def lockShared (miner : ι) (dataset : Dataset ι κ) : Option (Dataset ι κ) :=
  if dataset.holder = none then some { dataset with readers := miner :: dataset.readers } else none

def unlockShared [DecidableEq ι] (miner : ι) (dataset : Dataset ι κ) : Dataset ι κ :=
  { dataset with readers := dataset.readers.erase miner }

/-! ## What a builder's access can be -/

section Access

def keys (dataset : Dataset ι κ) : List κ :=
  dataset.builders.map Builder.key

theorem getElem?_advance (index : Nat) (phase : BuilderPhase κ) (dataset : Dataset ι κ)
    (other : Nat) :
    (dataset.advance index phase).builders[other]? =
      dataset.builders[other]?.map fun builder =>
        if index = other then { builder with phase := phase } else builder := by
  simp only [advance, List.getElem?_modify]
  cases dataset.builders[other]? with
  | none => rfl
  | some builder => split <;> rfl

@[simp] theorem keys_advance (index : Nat) (phase : BuilderPhase κ) (dataset : Dataset ι κ) :
    (dataset.advance index phase).keys = dataset.keys := by
  refine List.ext_getElem? fun other => ?_
  simp only [keys, List.getElem?_map, getElem?_advance, Option.map_map]
  congr 1
  funext builder
  by_cases same : index = other <;> simp [same]

theorem getElem?_spawn {builders : List (Builder κ)} {started builder : Builder κ} {index : Nat} :
    (builders ++ [started])[index]? = some builder ↔
      builders[index]? = some builder ∨ index = builders.length ∧ builder = started := by
  rcases Nat.lt_trichotomy index builders.length with before | rfl | behind
  · have other : index ≠ builders.length := by omega
    simp [List.getElem?_append_left before, other]
  · simp [eq_comm]
  · have other : index ≠ builders.length := by omega
    have beyond : (builders ++ [started])[index]? = none :=
      List.getElem?_eq_none (by simp; omega)
    have beyondOld : builders[index]? = none := List.getElem?_eq_none (by omega)
    simp [beyond, beyondOld, other]

inductive Access (dataset : Dataset ι κ) (index : Nat) (builder : Builder κ) : Dataset ι κ → Prop
  | lock : builder.phase = .lock → dataset.holder = none → dataset.readers = [] →
      Access dataset index builder
        { dataset.advance index .readKey with
          holder := some index
          granted := index :: dataset.granted }
  | readKey : builder.phase = .readKey →
      Access dataset index builder (dataset.advance index (.build (keyOf source dataset builder)))
  | build (key : κ) : builder.phase = .build key →
      Access dataset index builder { dataset.advance index .readId with contents := some key }
  | readId : builder.phase = .readId →
      Access dataset index builder
        (dataset.advance index (.storeReady (source.getId (keyOf source dataset builder))))
  | storeReady (id : UInt64) : builder.phase = .storeReady id →
      Access dataset index builder { dataset.advance index .unlock with readyId := id }
  | unlock : builder.phase = .unlock →
      Access dataset index builder { dataset.advance index .finished with holder := none }

theorem access_of_builderStep {index : Nat} {dataset next : Dataset ι κ}
    (stepped : builderStep source index dataset = some next) :
    ∃ builder, dataset.builders[index]? = some builder ∧
      Access source dataset index builder next := by
  obtain ⟨builder, found, taken⟩ := Option.bind_eq_some_iff.mp stepped
  refine ⟨builder, found, ?_⟩
  split at taken
  · rename_i phase
    split at taken
    · rename_i free
      cases taken
      exact .lock phase free.1 (List.isEmpty_iff.mp free.2)
    · cases taken
  · rename_i phase
    cases taken
    exact .readKey phase
  · rename_i key phase
    cases taken
    exact .build key phase
  · rename_i phase
    cases taken
    exact .readId phase
  · rename_i id phase
    cases taken
    exact .storeReady id phase
  · rename_i phase
    cases taken
    exact .unlock phase
  · cases taken

end Access

/-! ## The mutex -/

/-- The mutex is held by the one builder that is between obtaining and releasing
it, and then by no miner. -/
structure Exclusive (dataset : Dataset ι κ) : Prop where
  holder : ∀ index, dataset.holder = some index ↔
    ∃ builder, dataset.builders[index]? = some builder ∧ builder.phase.Holds
  readers : dataset.holder ≠ none → dataset.readers = []

theorem exclusive_start (seed : κ) : (start seed : Dataset ι κ).Exclusive where
  holder := by simp [start]
  readers := fun held => absurd rfl held

theorem Exclusive.advance {dataset next : Dataset ι κ} {index : Nat} {builder : Builder κ}
    {phase : BuilderPhase κ} (exclusive : dataset.Exclusive)
    (found : dataset.builders[index]? = some builder)
    (builders : next.builders = (dataset.advance index phase).builders)
    (readers : next.holder ≠ none → next.readers = [])
    (self : next.holder = some index ↔ phase.Holds)
    (others : ∀ other, other ≠ index →
      (next.holder = some other ↔ dataset.holder = some other)) : next.Exclusive where
  holder := by
    intro other
    rw [builders, getElem?_advance]
    by_cases same : index = other
    · subst same
      simpa [found] using self
    · rw [others other (Ne.symm same), exclusive.holder other]
      simp [same]
  readers := readers

theorem Exclusive.access {dataset next : Dataset ι κ} {index : Nat} {builder : Builder κ}
    (exclusive : dataset.Exclusive) (found : dataset.builders[index]? = some builder)
    (access : Access source dataset index builder next) : next.Exclusive := by
  have held : builder.phase.Holds → dataset.holder = some index :=
    fun holds => (exclusive.holder index).mpr ⟨builder, found, holds⟩
  have kept : ∀ (phase : BuilderPhase κ) {moved : Dataset ι κ}, builder.phase.Holds → phase.Holds →
      moved.builders = (dataset.advance index phase).builders →
      moved.readers = dataset.readers → moved.holder = dataset.holder → moved.Exclusive := by
    intro phase moved before after builders readers holder
    refine exclusive.advance found builders ?_ ?_ fun other _ => by rw [holder]
    · rw [holder, readers]
      exact exclusive.readers
    · rw [holder]
      exact iff_of_true (held before) after
  cases access with
  | lock phase free none =>
      refine exclusive.advance found rfl (fun _ => none) (by simp [BuilderPhase.Holds]) ?_
      intro other differs
      simp [free, Ne.symm differs]
  | readKey phase =>
      exact kept (.build _) (by simp [phase, BuilderPhase.Holds]) trivial rfl rfl rfl
  | build key phase =>
      exact kept .readId (by simp [phase, BuilderPhase.Holds]) trivial rfl rfl rfl
  | readId phase =>
      exact kept (.storeReady _) (by simp [phase, BuilderPhase.Holds]) trivial rfl rfl rfl
  | storeReady id phase =>
      exact kept .unlock (by simp [phase, BuilderPhase.Holds]) trivial rfl rfl rfl
  | unlock phase =>
      have before := held (by simp [phase, BuilderPhase.Holds])
      refine exclusive.advance found rfl (by simp) (by simp [BuilderPhase.Holds]) ?_
      intro other differs
      simp [before, Ne.symm differs]

theorem Exclusive.request {dataset : Dataset ι κ} (exclusive : dataset.Exclusive)
    (op : RequestOp κ) : (request source op dataset).Exclusive := by
  cases op with
  | compare key =>
      unfold Dataset.request
      dsimp only
      split
      · exact { exclusive with }
      · exact exclusive
  | storeLoaded key => exact { exclusive with }
  | invalidate => exact { exclusive with }
  | storeSeed key => exact { exclusive with }
  | spawn key =>
      refine ⟨fun index => ?_, exclusive.readers⟩
      change dataset.holder = some index ↔ ∃ builder,
        (dataset.builders ++ [⟨key, .lock⟩])[index]? = some builder ∧ builder.phase.Holds
      rw [exclusive.holder index]
      refine exists_congr fun builder => ?_
      rw [getElem?_spawn]
      constructor
      · exact fun ⟨found, holds⟩ => ⟨.inl found, holds⟩
      · rintro ⟨found | ⟨-, rfl⟩, holds⟩
        · exact ⟨found, holds⟩
        · exact holds.elim

end Dataset

end EpicMiner.Mining
