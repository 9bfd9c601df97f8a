import EpicMiner.Mining.Dataset

/-!
Owns what the identifiers of one dataset say about its contents, through requests
of the event loop and accesses of builders.
-/

namespace EpicMiner.Mining

open EpicMiner.Library
open EpicMiner.Data

namespace Dataset

variable {ι κ : Type} (source : DatasetClass κ)

def BuiltFor (dataset : Dataset ι κ) (id : UInt64) : Prop :=
  ∃ key, dataset.contents = some key ∧ source.getId key = id

/-- If `ready_id` is the identifier, then it says the truth. -/
def Truthful (dataset : Dataset ι κ) (id : UInt64) : Prop :=
  dataset.readyId = id → dataset.BuiltFor source id

/-- What `loaded_id` is when the rest of a request is done. -/
def loadedAfter : List (RequestOp κ) → UInt64 → UInt64
  | [], id => id
  | .compare key :: rest, _ => loadedAfter rest (source.getId key)
  | .storeLoaded key :: rest, _ => loadedAfter rest (source.getId key)
  | .invalidate :: rest, id => loadedAfter rest id
  | .storeSeed _ :: rest, id => loadedAfter rest id
  | .spawn _ :: rest, id => loadedAfter rest id

/-- The identifier of the latest request. -/
def requestedId (dataset : Dataset ι κ) : UInt64 :=
  loadedAfter source dataset.pending dataset.loadedId

/-- Every store of `loaded_id` is followed by `ready_id = invalid_id`. -/
def Invalidates : List (RequestOp κ) → Prop
  | [] => True
  | .storeLoaded _ :: rest => rest.head? = some .invalidate ∧ Invalidates rest
  | _ :: rest => Invalidates rest

theorem invalidates_calculateDataset (key : κ) {rest : List (RequestOp κ)}
    (invalidates : Invalidates rest) : Invalidates (calculateDataset source key ++ rest) := by
  unfold calculateDataset
  split <;> exact ⟨rfl, invalidates⟩

theorem loadedAfter_calculateDataset (key : κ) (rest : List (RequestOp κ)) (id : UInt64) :
    loadedAfter source (calculateDataset source key ++ rest) id =
      loadedAfter source rest (source.getId key) := by
  unfold calculateDataset
  split <;> rfl

/-- The identifiers of a dataset fit its contents, as far as it can tell without
the jobs. -/
structure Coherent (dataset : Dataset ι κ) : Prop where
  exclusive : dataset.Exclusive
  pending : Invalidates dataset.pending
  built : ∀ (index : Nat) (builder : Builder κ), dataset.builders[index]? = some builder →
    builder.phase = .readId → dataset.contents ≠ none
  stored : ∀ (index : Nat) (builder : Builder κ) (id : UInt64),
    dataset.builders[index]? = some builder → builder.phase = .storeReady id →
      dataset.BuiltFor source id
  loaded : dataset.loadedId ≠ invalidId → dataset.pending.head? ≠ some .invalidate →
    dataset.Truthful source dataset.loadedId

variable {source} {dataset next : Dataset ι κ}

theorem coherent_start (seed : κ) : (start seed : Dataset ι κ).Coherent source where
  exclusive := exclusive_start seed
  pending := trivial
  built := fun _ _ found => nomatch found
  stored := fun _ _ _ found => nomatch found
  loaded := fun valid => absurd rfl valid

theorem Coherent.frame (coherent : dataset.Coherent source) (exclusive : next.Exclusive)
    (pending : Invalidates next.pending) (builders : next.builders = dataset.builders)
    (contents : next.contents = dataset.contents) (loadedId : next.loadedId = dataset.loadedId)
    (readyId : next.readyId = dataset.readyId)
    (head : next.pending.head? ≠ some .invalidate → dataset.pending.head? ≠ some .invalidate) :
    next.Coherent source where
  exclusive := exclusive
  pending := pending
  built := by
    rw [builders, contents]
    exact coherent.built
  stored := by
    unfold BuiltFor
    rw [builders, contents]
    exact coherent.stored
  loaded := by
    unfold Truthful BuiltFor
    rw [loadedId, readyId, contents]
    exact fun valid notYet => coherent.loaded valid (head notYet)

/-! ## Requests -/

theorem Coherent.adjust (coherent : dataset.Coherent source) (key : κ)
    (idle : dataset.pending = []) : (dataset.adjust key).Coherent source := by
  refine coherent.frame { coherent.exclusive with } trivial rfl rfl rfl rfl fun _ => ?_
  simp [idle]

theorem requestedId_requestStep (stepped : dataset.requestStep source = some next) :
    next.requestedId source = dataset.requestedId source := by
  unfold requestStep at stepped
  split at stepped
  · cases stepped
  · rename_i op rest pending
    cases stepped
    unfold requestedId
    rw [pending]
    cases op with
    | compare key =>
        unfold request
        dsimp only
        split
        · exact loadedAfter_calculateDataset source key rest _
        · rename_i same
          rw [loadedAfter, ← not_ne_iff.mp same]
    | storeLoaded key => rfl
    | invalidate => rfl
    | storeSeed key => rfl
    | spawn key => rfl

theorem keeps_of_requestStep (stepped : dataset.requestStep source = some next) :
    next.contents = dataset.contents ∧ next.readers = dataset.readers ∧
      (next.readyId = dataset.readyId ∨ next.readyId = invalidId) := by
  unfold requestStep at stepped
  split at stepped
  · cases stepped
  · rename_i op rest pending
    cases stepped
    cases op with
    | compare key =>
        unfold request
        dsimp only
        split <;> exact ⟨rfl, rfl, .inl rfl⟩
    | invalidate => exact ⟨rfl, rfl, .inr rfl⟩
    | storeLoaded key => exact ⟨rfl, rfl, .inl rfl⟩
    | storeSeed key => exact ⟨rfl, rfl, .inl rfl⟩
    | spawn key => exact ⟨rfl, rfl, .inl rfl⟩

theorem Coherent.requestStep (coherent : dataset.Coherent source)
    (stepped : dataset.requestStep source = some next) : next.Coherent source := by
  unfold Dataset.requestStep at stepped
  split at stepped
  · cases stepped
  · rename_i op rest pending
    cases stepped
    have shape := coherent.pending
    rw [pending] at shape
    have begun : ({ dataset with pending := rest } : Dataset ι κ).Exclusive :=
      { coherent.exclusive with }
    have exclusive := begun.request source op
    have head : op ≠ .invalidate → dataset.pending.head? ≠ some .invalidate := by
      rw [pending]
      simp
    cases op with
    | compare key =>
        unfold Dataset.request at exclusive ⊢
        dsimp only at exclusive ⊢
        split at exclusive
        · rename_i differs
          rw [if_pos differs]
          exact coherent.frame exclusive (invalidates_calculateDataset source key shape) rfl rfl rfl
            rfl fun _ => head (by simp)
        · rename_i same
          rw [if_neg same]
          exact coherent.frame exclusive shape rfl rfl rfl rfl fun _ => head (by simp)
    | storeLoaded key =>
        exact
          { exclusive := exclusive
            pending := shape.2
            built := coherent.built
            stored := coherent.stored
            loaded := fun _ notYet => absurd shape.1 notYet }
    | invalidate =>
        exact
          { exclusive := exclusive
            pending := shape
            built := coherent.built
            stored := coherent.stored
            loaded := fun valid _ ready => absurd ready.symm valid }
    | storeSeed key =>
        exact coherent.frame exclusive shape rfl rfl rfl rfl fun _ => head (by simp)
    | spawn key =>
        refine ⟨exclusive, shape, fun index builder found phase => ?_,
          fun index builder id found phase => ?_, fun valid _ => ?_⟩
        · rcases getElem?_spawn.mp found with before | ⟨-, rfl⟩
          · exact coherent.built index builder before phase
          · cases phase
        · rcases getElem?_spawn.mp found with before | ⟨-, rfl⟩
          · exact coherent.stored index builder id before phase
          · cases phase
        · exact coherent.loaded valid (head (by simp))

/-! ## Builders -/

theorem Exclusive.unique {index other : Nat} {builder another : Builder κ}
    (exclusive : dataset.Exclusive) (found : dataset.builders[index]? = some builder)
    (holds : builder.phase.Holds) (foundOther : dataset.builders[other]? = some another)
    (holdsOther : another.phase.Holds) : index = other := by
  have self := (exclusive.holder index).mpr ⟨builder, found, holds⟩
  have same := (exclusive.holder other).mpr ⟨another, foundOther, holdsOther⟩
  exact Option.some.inj (self.symm.trans same)

theorem getElem?_of_advance {index other : Nat} {builder found : Builder κ}
    {phase : BuilderPhase κ} (self : dataset.builders[index]? = some builder)
    (after : (dataset.advance index phase).builders[other]? = some found) :
    index = other ∧ found.phase = phase ∨
      index ≠ other ∧ dataset.builders[other]? = some found := by
  rw [getElem?_advance] at after
  by_cases same : index = other
  · subst same
    rw [self, Option.map_some, if_pos rfl, Option.some.injEq] at after
    exact .inl ⟨rfl, after ▸ rfl⟩
  · simp only [if_neg same, Option.map_id'] at after
    exact .inr ⟨same, after⟩

theorem Coherent.advance (coherent : dataset.Coherent source) {index : Nat} {builder : Builder κ}
    {phase : BuilderPhase κ} (found : dataset.builders[index]? = some builder)
    (exclusive : next.Exclusive) (builders : next.builders = (dataset.advance index phase).builders)
    (pending : next.pending = dataset.pending) (contents : next.contents = dataset.contents)
    (loadedId : next.loadedId = dataset.loadedId) (readyId : next.readyId = dataset.readyId)
    (built : phase ≠ .readId) (stored : ∀ id, phase = .storeReady id → dataset.BuiltFor source id) :
    next.Coherent source where
  exclusive := exclusive
  pending := pending ▸ coherent.pending
  built := by
    intro other after foundAfter isReadId
    rw [builders] at foundAfter
    rw [contents]
    rcases getElem?_of_advance found foundAfter with ⟨-, moved⟩ | ⟨-, before⟩
    · exact absurd (moved.symm.trans isReadId) built
    · exact coherent.built other after before isReadId
  stored := by
    intro other after id foundAfter stores
    rw [builders] at foundAfter
    unfold BuiltFor
    rw [contents]
    rcases getElem?_of_advance found foundAfter with ⟨-, moved⟩ | ⟨-, before⟩
    · exact stored id (moved.symm.trans stores)
    · exact coherent.stored other after id before stores
  loaded := by
    unfold Truthful BuiltFor
    rw [loadedId, readyId, contents, pending]
    exact coherent.loaded

theorem Coherent.access (coherent : dataset.Coherent source) {index : Nat} {builder : Builder κ}
    (found : dataset.builders[index]? = some builder)
    (access : Access source dataset index builder next)
    (apart : ∀ key, builder.phase = .build key → dataset.loadedId ≠ invalidId →
      dataset.readyId = dataset.loadedId → source.getId key = dataset.loadedId)
    (same : builder.phase = .readId → ∀ key, dataset.contents = some key →
      source.getId key = source.getId (keyOf source dataset builder)) :
    next.Coherent source := by
  have exclusive := coherent.exclusive.access source found access
  cases access with
  | lock phase free none =>
      exact coherent.advance found exclusive rfl rfl rfl rfl rfl (by simp) (by simp)
  | readKey phase =>
      exact coherent.advance found exclusive rfl rfl rfl rfl rfl (by simp) (by simp)
  | unlock phase =>
      exact coherent.advance found exclusive rfl rfl rfl rfl rfl (by simp) (by simp)
  | readId phase =>
      refine coherent.advance found exclusive rfl rfl rfl rfl rfl (by simp) fun id stores => ?_
      cases stores
      obtain ⟨key, contents⟩ :=
        Option.ne_none_iff_exists'.mp (coherent.built index builder found phase)
      exact ⟨key, contents, same phase key contents⟩
  | build key phase =>
      have holds : builder.phase.Holds := by rw [phase]; trivial
      refine ⟨exclusive, coherent.pending, fun _ _ _ _ => by simp, ?_, ?_⟩
      · intro other after id foundAfter stores
        rcases getElem?_of_advance found foundAfter with ⟨-, moved⟩ | ⟨differs, before⟩
        · cases moved.symm.trans stores
        · refine absurd (coherent.exclusive.unique found holds before ?_) differs
          rw [stores]
          trivial
      · intro valid _ ready
        exact ⟨key, rfl, apart key phase valid ready⟩
  | storeReady id phase =>
      have builtFor := coherent.stored index builder id found phase
      refine ⟨exclusive, coherent.pending, ?_, ?_, ?_⟩
      · intro other after foundAfter isReadId
        rcases getElem?_of_advance found foundAfter with ⟨-, moved⟩ | ⟨-, before⟩
        · cases moved.symm.trans isReadId
        · exact coherent.built other after before isReadId
      · intro other after stored foundAfter stores
        rcases getElem?_of_advance found foundAfter with ⟨-, moved⟩ | ⟨-, before⟩
        · cases moved.symm.trans stores
        · exact coherent.stored other after stored before stores
      · intro _ _ ready
        exact ready ▸ builtFor

end Dataset

end EpicMiner.Mining
