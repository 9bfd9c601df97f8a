import EpicMiner.Library.Simulation
import EpicMiner.Mining.Readiness

/-!
Owns how miners respond to a new job. A miner that is past the test of its loop when its
job is replaced hashes once more for it and leaves. On its way to the next job it waits
for nothing but a builder that holds the mutex, and that builder waits for nobody.
-/

namespace EpicMiner.Mining

open EpicMiner.Library
open EpicMiner.Data

variable {ι : Type} [DecidableEq ι] {getEpochNumber : Int32 → Int32} {state next : State ι}

/-! ## Hashes for replaced jobs -/

/-- The miner hashed for a job at a position before `current`. -/
def MiningEvent.isStale (miner : ι) (current : Nat) : MiningEvent ι → Bool
  | .hash other job _ => decide (other = miner ∧ job < current)
  | _ => false

def staleHashes (miner : ι) (current : Nat) (log : List (MiningEvent ι)) : Nat :=
  log.countP (MiningEvent.isStale miner current)

/-- The thread is past the test of its loop, with a job at a position before `current`. -/
def Thread.Committed (current : Nat) (thread : Thread) : Prop :=
  thread.phase ∈ [.nextNonce, .hash] ∧ thread.lastJob < current

instance (current : Nat) (thread : Thread) : Decidable (thread.Committed current) :=
  inferInstanceAs (Decidable (_ ∧ _))

/-- The hashes that the thread will still make for jobs before `current`. -/
def Thread.debt (current : Nat) (thread : Thread) : Nat :=
  if thread.Committed current then 1 else 0

theorem Thread.debt_le_one (current : Nat) (thread : Thread) : thread.debt current ≤ 1 := by
  unfold debt
  split <;> omega

theorem Thread.debt_of_phase {current : Nat} {thread : Thread}
    (outside : thread.phase ∉ [.nextNonce, .hash]) : thread.debt current = 0 :=
  if_neg fun committed => outside committed.1

/-- What was logged since, with what the miner still owes, is no more than it owed. -/
structure Repaid (miner : ι) (current : Nat) (state next : State ι) : Prop where
  replaced : current ≤ next.published.current
  spent : ∃ newer, next.log = newer ++ state.log ∧
    staleHashes miner current newer + (next.threads miner).debt current ≤
      (state.threads miner).debt current

namespace Repaid

variable {miner : ι} {current : Nat}

theorem refl (replaced : current ≤ state.published.current) :
    Repaid miner current state state :=
  ⟨replaced, [], rfl, by simp [staleHashes]⟩

theorem trans {third : State ι} (before : Repaid miner current state next)
    (after : Repaid miner current next third) : Repaid miner current state third := by
  obtain ⟨older, olderLog, olderSpent⟩ := before.spent
  obtain ⟨newer, newerLog, newerSpent⟩ := after.spent
  refine ⟨after.replaced, newer ++ older, by rw [newerLog, olderLog, List.append_assoc], ?_⟩
  have split : staleHashes miner current (newer ++ older) =
      staleHashes miner current newer + staleHashes miner current older :=
    List.countP_append
  omega

/-- Steps of others: nothing that counts is logged, and the thread stays where it is. -/
theorem of_frame (replaced : current ≤ next.published.current)
    (thread : next.threads miner = state.threads miner)
    (log : ∃ newer, next.log = newer ++ state.log ∧ staleHashes miner current newer = 0) :
    Repaid miner current state next := by
  obtain ⟨newer, appended, none⟩ := log
  exact ⟨replaced, newer, appended, by rw [none, thread, Nat.zero_add]⟩

/-- Steps of the miner that log nothing and do not pass the test of its loop. -/
theorem of_outside {thread : Thread} (replaced : current ≤ state.published.current)
    (outside : thread.phase ∉ [.nextNonce, .hash]) :
    Repaid miner current state (state.withThread miner thread) := by
  refine ⟨replaced, [], rfl, ?_⟩
  simp [staleHashes, State.withThread, Thread.debt_of_phase outside]

theorem minerAccess (replaced : current ≤ state.published.current)
    (access : state.MinerAccess miner next) : Repaid miner current state next := by
  have committed : (state.threads miner).phase = .nextNonce → ∀ thread : Thread,
      thread.lastJob = (state.threads miner).lastJob →
        thread.debt current ≤ (state.threads miner).debt current := by
    intro phase thread lastJob
    unfold Thread.debt
    split
    case isFalse => exact Nat.zero_le _
    case isTrue owes =>
      rw [if_pos ⟨by simp [phase], lastJob ▸ owes.2⟩]
  cases access with
  | load phase =>
      apply of_outside replaced
      unfold Thread.load
      dsimp only
      split <;> simp
  | rest phase => exact refl replaced
  | wait after waits goes =>
      apply of_outside replaced
      simp only [List.mem_cons, List.not_mem_nil, or_false] at goes
      rcases goes with rfl | rfl | rfl <;> simp
  | ready ref phase ds ready => exact of_outside replaced (by simp)
  | lockShared ref phase ds free fits => exact ⟨replaced, (of_outside replaced (by simp)).spent⟩
  | goOn phase isCurrent =>
      -- the job of the miner is the current one, so it is not behind `current`
      refine ⟨replaced, [], rfl, ?_⟩
      have fresh : ¬ ((state.threads miner).goto .nextNonce).Committed current := by
        rintro ⟨-, older⟩
        simp only [Thread.goto_lastJob] at older
        omega
      simp [staleHashes, State.withThread, Thread.debt, fresh]
  | stop phase changed => exact of_outside replaced (by simp)
  | claim phase claims =>
      refine ⟨replaced, [.claim miner (state.threads miner).lastJob state.nonce], by simp, ?_⟩
      have owes := committed phase ((state.threads miner).claim state.nonce)
        (by simp [Thread.claim])
      simpa [staleHashes, MiningEvent.isStale, State.withThread, State.record] using owes
  | increment phase claims =>
      refine ⟨replaced, [], rfl, ?_⟩
      have owes := committed phase (state.threads miner).increment (by simp [Thread.increment])
      simpa [staleHashes, State.withThread] using owes
  | hash phase =>
      refine ⟨replaced, [_], rfl, ?_⟩
      have after : ((state.threads miner).goto .loopHead).debt current = 0 :=
        Thread.debt_of_phase (by simp)
      simp only [State.record, State.withThread, Function.update_self, after, Nat.add_zero]
      by_cases older : (state.threads miner).lastJob < current
      · have owes : (state.threads miner).Committed current := ⟨by simp [phase], older⟩
        simp [staleHashes, MiningEvent.isStale, older, Thread.debt, owes]
      · simp [staleHashes, MiningEvent.isStale, older]
  | unlockShared ref phase ds => exact ⟨replaced, (of_outside replaced (by simp)).spent⟩

/-- An access of another miner. -/
theorem other {acting : ι} (replaced : current ≤ state.published.current) (differs : miner ≠ acting)
    (access : state.MinerAccess acting next) : Repaid miner current state next := by
  obtain ⟨published, -, others⟩ := access.frame
  refine of_frame (published ▸ replaced) (others miner differs) ?_
  cases access with
  | claim =>
      refine ⟨[.claim acting (state.threads acting).lastJob state.nonce], by simp, ?_⟩
      simp [staleHashes, MiningEvent.isStale]
  | hash => exact ⟨[_], rfl, by simp [staleHashes, MiningEvent.isStale, Ne.symm differs]⟩
  | _ => exact ⟨[], rfl, rfl⟩

omit [DecidableEq ι] in
theorem current_access (op : SharedOp) :
    state.published.current ≤ (state.access getEpochNumber op).published.current := by
  have later : ∀ job, state.published.current ≤ (state.published.publish job).current :=
    fun _ => Nat.le_of_lt state.published.current_lt
  cases op with
  | publish job => exact later job
  | publishIdle =>
      unfold State.access
      dsimp only
      split
      · exact later .idle
      · exact Nat.le_refl _
  | _ => exact Nat.le_refl _

theorem event (op : SharedOp) (replaced : current ≤ state.published.current) :
    Repaid miner current state (state.access getEpochNumber op) := by
  refine of_frame (Nat.le_trans replaced (current_access op))
    (by rw [State.access_threads getEpochNumber op]) ?_
  cases op with
  | storeNonce => exact ⟨[.storeNonce], rfl, by simp [staleHashes, MiningEvent.isStale]⟩
  | publishIdle =>
      unfold State.access
      dsimp only
      split <;> exact ⟨[], rfl, rfl⟩
  | _ => exact ⟨[], rfl, rfl⟩

theorem step {input : State.Input ι} (replaced : current ≤ state.published.current)
    (stepped : state.step getEpochNumber input = some next) :
    Repaid miner current state next := by
  cases State.taken_of_step stepped with
  | happen happening => exact of_frame replaced rfl ⟨[], rfl, rfl⟩
  | event op rest script =>
      have begun : Repaid miner current state { state with script := rest } :=
        of_frame replaced rfl ⟨[], rfl, rfl⟩
      exact begun.trans (event op replaced)
  | request ref dataset => exact of_frame replaced rfl ⟨[], rfl, rfl⟩
  | builder ref index dataset => exact of_frame replaced rfl ⟨[], rfl, rfl⟩
  | miner acting next access =>
      by_cases same : miner = acting
      · subst same
        exact minerAccess replaced access
      · exact other replaced same access

end Repaid

/-- Once a job is replaced, each miner makes at most one more hash for it and the jobs
before it together, however the threads interleave from then on. -/
theorem staleHashes_le_one {state next : State ι}
    (steps : (State.machine getEpochNumber).Steps state next) (miner : ι) :
    ∃ newer, next.log = newer ++ state.log ∧
      staleHashes miner state.published.current newer ≤ 1 := by
  have repaid : Repaid miner state.published.current state next := by
    induction steps with
    | refl => exact .refl (Nat.le_refl _)
    | tail before last inductionHypothesis =>
        obtain ⟨input, stepped, -⟩ := last
        exact inductionHypothesis.trans (Repaid.step inductionHypothesis.replaced stepped)
  obtain ⟨newer, appended, spent⟩ := repaid.spent
  have owed := (state.threads miner).debt_le_one state.published.current
  exact ⟨newer, appended, by omega⟩

/-! ## The way to the next job -/

/-- A job that a miner works on names its dataset and shares the nonce counter. -/
def Serves (job : MinerJob) : Prop :=
  ∀ miner : CpuMiner, job.type = miner.powType → job.ds.isSome = true ∧ job.sharesNonce = true

theorem serves_idle : Serves .idle := by
  intro miner mines
  cases miner <;> cases mines

theorem serves_published (getEpochNumber : Int32 → Int32) (job : PoolJob) :
    Serves (.published getEpochNumber job) := by
  intro miner mines
  unfold MinerJob.published at mines ⊢
  split at mines
  · exact ⟨rfl, rfl⟩
  · exact ⟨rfl, rfl⟩
  · rename_i notRandomx notProgpow
    cases miner with
    | rxCpuMiner => exact absurd mines notRandomx
    | ppCpuMiner => exact absurd mines notProgpow

/-- The mutexes are held as they should be, and every thread works on a job that serves. -/
structure Manned (state : State ι) : Prop where
  exclusive : ∀ ref, (state.datasets ref).Exclusive
  engaged : ∀ miner, Engaged state.published (state.threads miner)
  serves : ∀ job ∈ state.published.jobs, Serves job
  coming : ∀ job, .publish job ∈ state.script → Serves job

namespace Manned

omit [DecidableEq ι] in
theorem start (initial : State.Initial state) : Manned state := by
  obtain ⟨miners, seed, rfl⟩ := initial
  constructor
  case exclusive =>
    intro ref
    cases ref with
    | randomxDataset => exact Dataset.exclusive_start seed
    | progpowDataset => exact Dataset.exclusive_start 0
  case engaged => exact fun miner begun => absurd (by simp [State.start, Thread.start]) begun
  case serves =>
    intro job member
    cases List.mem_singleton.mp member
    exact serves_idle
  case coming => simp [State.start]

omit [DecidableEq ι] in
theorem withDataset (manned : Manned state) {ref : DatasetRef} {dataset : Dataset ι (Key ref)}
    (exclusive : dataset.Exclusive) : Manned (state.withDataset ref dataset) where
  exclusive := by
    intro other
    exact (Function.forall_update_iff state.datasets fun _ dataset => dataset.Exclusive).mpr
      ⟨exclusive, fun other _ => manned.exclusive other⟩ other
  engaged := manned.engaged
  serves := manned.serves
  coming := manned.coming

omit [DecidableEq ι] in
theorem publish (manned : Manned state) {job : MinerJob} (serves : Serves job) :
    Manned { state with published := state.published.publish job } where
  exclusive := manned.exclusive
  engaged := fun miner => (manned.engaged miner).grow fun position older found =>
    PublishedJobs.getElem?_apply (.publish job) found
  serves := by
    intro older member
    rcases List.mem_append.mp member with before | added
    · exact manned.serves older before
    · cases List.mem_singleton.mp added
      exact serves
  coming := manned.coming

omit [DecidableEq ι] in
theorem access (manned : Manned state) (op : SharedOp)
    (serves : ∀ job, op = .publish job → Serves job) :
    Manned (state.access getEpochNumber op) := by
  cases op with
  | storeNonce => exact { manned with }
  | adjustToSeed seed =>
      exact manned.withDataset { manned.exclusive .randomxDataset with }
  | adjustToBlock height =>
      exact manned.withDataset { manned.exclusive .progpowDataset with }
  | publish job => exact manned.publish (serves job rfl)
  | publishIdle =>
      unfold State.access
      dsimp only
      split
      · exact manned.publish serves_idle
      · exact manned

/-- An access of a miner only touches the readers of a dataset that no builder holds. -/
theorem exclusive_minerAccess (manned : Manned state) {miner : ι}
    (access : state.MinerAccess miner next) (other : DatasetRef) :
    (next.datasets other).Exclusive := by
  have updated : ∀ (ref : DatasetRef) (dataset : Dataset ι (Key ref)), dataset.Exclusive →
      (Function.update state.datasets ref dataset other).Exclusive :=
    fun ref dataset exclusive => (manned.withDataset exclusive).exclusive other
  cases access with
  | lockShared ref phase ds free fits =>
      exact updated ref _ ⟨(manned.exclusive ref).holder, fun held => absurd free held⟩
  | unlockShared ref phase ds =>
      refine updated ref _ ⟨(manned.exclusive ref).holder, fun held => ?_⟩
      have none : (state.datasets ref).readers = [] := (manned.exclusive ref).readers held
      simp [Dataset.unlockShared, none]
  | _ => exact manned.exclusive other

theorem step {input : State.Input ι} (manned : Manned state)
    (stepped : state.step getEpochNumber input = some next) : Manned next := by
  cases State.taken_of_step stepped with
  | happen happening =>
      refine { manned with coming := fun job member => ?_ }
      cases happening with
      | accepted accepted =>
          have same : job = .published getEpochNumber accepted := by
            simpa [Happening.script] using member
          exact same ▸ serves_published getEpochNumber accepted
      | _ => simp [Happening.script] at member
  | event op rest script =>
      have begun : Manned { state with script := rest } :=
        { manned with coming := fun job member => manned.coming job (by simp [script, member]) }
      refine begun.access op fun job same => ?_
      exact manned.coming job (by simp [script, same])
  | request ref dataset requested =>
      obtain ⟨op, rest, rfl⟩ := Dataset.requestStep_eq requested
      have begun : ({ state.datasets ref with pending := rest } : Dataset ι (Key ref)).Exclusive :=
        { manned.exclusive ref with }
      exact manned.withDataset (begun.request (sourceOf ref) op)
  | builder ref index dataset built =>
      obtain ⟨builder, found, access⟩ := Dataset.access_of_builderStep (sourceOf ref) built
      exact manned.withDataset ((manned.exclusive ref).access (sourceOf ref) found access)
  | miner miner next access =>
      obtain ⟨published, script, -⟩ := access.frame
      constructor
      case exclusive => exact manned.exclusive_minerAccess access
      case engaged => exact State.engaged_minerStep stepped manned.engaged
      case serves => exact published ▸ manned.serves
      case coming => exact script ▸ manned.coming

end Manned

/-! ### Schedules -/

/-- The accesses of the miner itself, and those of the one builder that holds the mutex of the
dataset the miner is to use. -/
inductive State.Own (state : State ι) (miner : ι) : State.Input ι → Prop
  | miner : state.Own miner (.miner miner)
  | holder (ref : DatasetRef) (index : Nat) :
      (state.threads miner).currentJob.ds = some ref →
      (state.datasets ref).holder = some index → state.Own miner (.builder ref index)

/-- At most `bound` accesses of the given ones lead to the goal. -/
def Leads (getEpochNumber : Int32 → Int32) (Own : State.Input ι → Prop) (Goal : State ι → Prop)
    (bound : Nat) (state : State ι) : Prop :=
  ∃ inputs : List (State.Input ι), inputs.length ≤ bound ∧ (∀ input ∈ inputs, Own input) ∧
    ∃ last, Machine.runPartial (State.step getEpochNumber) state inputs = some last ∧ Goal last

namespace Leads

variable {Own : State.Input ι → Prop} {Goal : State ι → Prop} {bound : Nat}

theorem now (reached : Goal state) : Leads getEpochNumber Own Goal bound state :=
  ⟨[], Nat.zero_le _, by simp, state, rfl, reached⟩

theorem mono {larger : Nat} (leads : Leads getEpochNumber Own Goal bound state)
    (within : bound ≤ larger) : Leads getEpochNumber Own Goal larger state := by
  obtain ⟨inputs, short, own, run⟩ := leads
  exact ⟨inputs, Nat.le_trans short within, own, run⟩

theorem after {input : State.Input ι} (own : Own input)
    (stepped : state.step getEpochNumber input = some next)
    (leads : Leads getEpochNumber Own Goal bound next) :
    Leads getEpochNumber Own Goal (bound + 1) state := by
  obtain ⟨inputs, short, others, last, run, reached⟩ := leads
  refine ⟨input :: inputs, by simpa using short, ?_, last, ?_, reached⟩
  · rintro one (_ | ⟨_, member⟩)
    · exact own
    · exact others one member
  · rw [Machine.runPartial_cons, stepped]
    exact run

theorem minerStep {miner : ι} (own : Own (.miner miner))
    (stepped : state.minerStep miner = some next)
    (leads : Leads getEpochNumber Own Goal bound next) :
    Leads getEpochNumber Own Goal (bound + 1) state :=
  leads.after own stepped

end Leads

/-! ### Builders -/

/-- The accesses that a builder makes until it has given the mutex up. -/
def BuilderPhase.left {κ : Type} : BuilderPhase κ → Nat
  | .readKey => 5
  | .build _ => 4
  | .readId => 3
  | .storeReady _ => 2
  | .unlock => 1
  | _ => 0

theorem BuilderPhase.left_le {κ : Type} (phase : BuilderPhase κ) : phase.left ≤ 5 := by
  cases phase <;> simp [left]

omit [DecidableEq ι] in
/-- A builder that holds the mutex can always go on. -/
theorem Dataset.builderStep_of_holds {κ : Type} (source : DatasetClass κ)
    {dataset : Dataset ι κ} {index : Nat} {builder : Builder κ}
    (found : dataset.builders[index]? = some builder) (holds : builder.phase.Holds) :
    ∃ next, builderStep source index dataset = some next ∧
      (next.holder = none ∨ ∃ moved, next.builders[index]? = some moved ∧ moved.phase.Holds ∧
        moved.phase.left < builder.phase.left) := by
  obtain ⟨key, phase⟩ := builder
  have moves : ∀ moved : BuilderPhase κ,
      (dataset.advance index moved).builders[index]? = some ⟨key, moved⟩ := by
    intro moved
    rw [getElem?_advance, found]
    simp
  unfold builderStep
  rw [found]
  cases phase with
  | lock => exact holds.elim
  | readKey =>
      exact ⟨_, rfl, .inr ⟨_, moves _, trivial, by simp [BuilderPhase.left]⟩⟩
  | build key => exact ⟨_, rfl, .inr ⟨_, moves .readId, trivial, by simp [BuilderPhase.left]⟩⟩
  | readId =>
      exact ⟨_, rfl, .inr ⟨_, moves _, trivial, by simp [BuilderPhase.left]⟩⟩
  | storeReady id => exact ⟨_, rfl, .inr ⟨_, moves .unlock, trivial, by simp [BuilderPhase.left]⟩⟩
  | unlock => exact ⟨_, rfl, .inl rfl⟩
  | finished => exact holds.elim

namespace Leads

variable {Own : State.Input ι → Prop} {Goal : State ι → Prop} {bound : Nat}

/-- What is possible once the mutex is free is possible after the rest of the builder that
holds it. The induction is on the accesses the builder has left. -/
theorem release {ref : DatasetRef} {index : Nat} {builder : Builder (Key ref)}
    (own : Own (.builder ref index))
    (found : (state.datasets ref).builders[index]? = some builder) (holds : builder.phase.Holds)
    (leads : ∀ dataset : Dataset ι (Key ref), dataset.holder = none →
      Leads getEpochNumber Own Goal bound (state.withDataset ref dataset)) :
    Leads getEpochNumber Own Goal (bound + builder.phase.left) state := by
  generalize accesses : builder.phase.left = left
  induction left using Nat.strong_induction_on generalizing state builder with
  | h left inductionHypothesis =>
      obtain ⟨dataset, stepped, outcome⟩ :=
        Dataset.builderStep_of_holds (sourceOf ref) found holds
      have taken : state.step getEpochNumber (.builder ref index) =
          some (state.withDataset ref dataset) := by
        simp [State.step, stepped]
      have pending : 0 < left := by
        cases phase : builder.phase <;>
          simp [phase, BuilderPhase.left, BuilderPhase.Holds] at accesses holds <;> omega
      rcases outcome with free | ⟨moved, movedFound, movedHolds, closer⟩
      · exact ((leads dataset free).after own taken).mono (by omega)
      · rw [accesses] at closer
        have rest : Leads getEpochNumber Own Goal (bound + moved.phase.left)
            (state.withDataset ref dataset) := by
          refine inductionHypothesis _ closer ?_ movedHolds ?_ rfl
          · simpa [State.withDataset] using movedFound
          · intro later free
            simpa [State.withDataset] using leads later free
        exact (rest.after own taken).mono (by omega)

end Leads

/-! ### Miners -/

/-- The miner points to the current job of the published ones. -/
def AtCurrent (published : PublishedJobs) (miner : ι) (state : State ι) : Prop :=
  state.published = published ∧ (state.threads miner).lastJob = published.current

/-- The job of a miner is replaced, and names a dataset and a counter. -/
structure Leaving (state : State ι) (miner : ι) : Prop where
  replaced : (state.threads miner).lastJob ≠ state.published.current
  ds : (state.threads miner).currentJob.ds.isSome = true
  sharesNonce : (state.threads miner).currentJob.sharesNonce = true

namespace Leaving

variable {miner : ι} (leaving : Leaving state miner)

include leaving

theorem goto (phase : Phase) :
    Leaving (state.withThread miner ((state.threads miner).goto phase)) miner where
  replaced := by simpa [State.withThread] using leaving.replaced
  ds := by simpa [State.withThread] using leaving.ds
  sharesNonce := by simpa [State.withThread] using leaving.sharesNonce

theorem withNonce (nonce : UInt32) (phase : Phase) :
    Leaving (state.withThread miner (((state.threads miner).withNonce nonce).goto phase)) miner where
  replaced := by simpa [State.withThread] using leaving.replaced
  ds := by
    simp only [State.withThread, Function.update_self, Thread.goto_currentJob]
    rw [Thread.withNonce_currentJob]
    exact leaving.ds
  sharesNonce := by
    simp only [State.withThread, Function.update_self, Thread.goto_currentJob]
    rw [Thread.withNonce_currentJob]
    exact leaving.sharesNonce

end Leaving

section Accesses

variable {miner : ι} {Own : State.Input ι → Prop} (own : Own (.miner miner))

include own

theorem leads_load (phase : (state.threads miner).phase = .load) :
    Leads getEpochNumber Own (AtCurrent state.published miner) 1 state := by
  have stepped : state.minerStep miner =
      some (state.withThread miner ((state.threads miner).load state.published)) := by
    simp only [State.minerStep, phase]
  refine Leads.minerStep own stepped (.now ⟨rfl, ?_⟩)
  simp [State.withThread, Thread.load]

theorem leads_idle (phase : (state.threads miner).phase = .idle)
    (replaced : (state.threads miner).lastJob ≠ state.published.current) :
    Leads getEpochNumber Own (AtCurrent state.published miner) 2 state := by
  refine Leads.minerStep own (by simp only [State.minerStep, phase, if_neg replaced.symm]; rfl) ?_
  exact leads_load own (by simp [State.withThread])

theorem leads_checkJob (phase : (state.threads miner).phase = .checkJob)
    (replaced : (state.threads miner).lastJob ≠ state.published.current) :
    Leads getEpochNumber Own (AtCurrent state.published miner) 2 state := by
  refine Leads.minerStep own (by simp only [State.minerStep, phase, if_neg replaced.symm]; rfl) ?_
  exact leads_load own (by simp [State.withThread])

theorem leads_unlockShared (phase : (state.threads miner).phase = .unlockShared)
    (leaving : Leaving state miner) :
    Leads getEpochNumber Own (AtCurrent state.published miner) 2 state := by
  obtain ⟨ref, ds⟩ := Option.isSome_iff_exists.mp leaving.ds
  refine Leads.minerStep own (by simp only [State.minerStep, phase, ds]; rfl) ?_
  exact leads_load own (by simp [State.withThread])

theorem leads_loopHead (phase : (state.threads miner).phase = .loopHead)
    (leaving : Leaving state miner) :
    Leads getEpochNumber Own (AtCurrent state.published miner) 3 state := by
  have stops : state.published.current ≠ (state.threads miner).lastJob := leaving.replaced.symm
  refine Leads.minerStep own (by simp only [State.minerStep, phase, if_neg stops]; rfl) ?_
  exact leads_unlockShared own (by simp [State.withThread]) (leaving.goto .unlockShared)

theorem leads_hash (phase : (state.threads miner).phase = .hash) (leaving : Leaving state miner) :
    Leads getEpochNumber Own (AtCurrent state.published miner) 4 state := by
  refine Leads.minerStep own (by simp only [State.minerStep, phase]; rfl) ?_
  exact leads_loopHead own (by simp [State.withThread, State.record])
    { leaving.goto .loopHead with }

theorem leads_nextNonce (phase : (state.threads miner).phase = .nextNonce)
    (leaving : Leaving state miner) :
    Leads getEpochNumber Own (AtCurrent state.published miner) 5 state := by
  by_cases claims : (state.threads miner).Claims
  · have stepped : state.minerStep miner =
        some (({ state with nonce := state.nonce + nonceChunk }.withThread miner
          ((state.threads miner).claim state.nonce)).record
            (.claim miner (state.threads miner).lastJob state.nonce)) := by
      simp only [State.minerStep, phase, if_pos claims, if_pos leaving.sharesNonce]
    refine Leads.minerStep own stepped ?_
    -- what the counter holds then does not matter
    generalize state.nonce + nonceChunk = counter
    refine leads_hash own (by simp [State.withThread, State.record, Thread.claim]) ?_
    exact { leaving.withNonce state.nonce .hash with }
  · refine Leads.minerStep own (by simp only [State.minerStep, phase, if_neg claims]; rfl) ?_
    exact leads_hash own (by simp [State.withThread, Thread.increment]) (leaving.withNonce _ .hash)

/-- A miner that waits for the mutex waits for the rest of one builder at most. -/
theorem leads_lockShared (phase : (state.threads miner).phase = .lockShared)
    (leaving : Leaving state miner) (exclusive : ∀ ref, (state.datasets ref).Exclusive)
    (holding : ∀ ref index, (state.threads miner).currentJob.ds = some ref →
      (state.datasets ref).holder = some index → Own (.builder ref index))
    (fits : (state.threads miner).miner.Fits (state.threads miner).currentJob) :
    Leads getEpochNumber Own (AtCurrent state.published miner) 9 state := by
  obtain ⟨ref, ds⟩ := Option.isSome_iff_exists.mp leaving.ds
  have enters : ∀ dataset : Dataset ι (Key ref), dataset.holder = none →
      Leads getEpochNumber Own (AtCurrent state.published miner) 4
        (state.withDataset ref dataset) := by
    intro dataset free
    have stepped : (state.withDataset ref dataset).minerStep miner =
        some ((state.withDataset ref { dataset with readers := miner :: dataset.readers }).withThread
          miner (((state.threads miner).withNonce 0).goto .loopHead)) := by
      simp [State.minerStep, State.withDataset, phase, ds, Dataset.lockShared, free, fits,
        State.withThread]
    refine Leads.minerStep own stepped ?_
    exact leads_loopHead own (by simp [State.withThread]) { leaving.withNonce 0 .loopHead with }
  cases held : (state.datasets ref).holder with
  | none =>
      have now := enters (state.datasets ref) held
      have same : state.withDataset ref (state.datasets ref) = state := by
        simp [State.withDataset]
      rw [same] at now
      exact now.mono (by omega)
  | some index =>
      obtain ⟨builder, found, holds⟩ := ((exclusive ref).holder index).mp held
      have enough := builder.phase.left_le
      exact (Leads.release (holding ref index ds held) found holds enters).mono (by omega)

theorem leads_checkReady (phase : (state.threads miner).phase = .checkReady)
    (leaving : Leaving state miner) (exclusive : ∀ ref, (state.datasets ref).Exclusive)
    (holding : ∀ ref index, (state.threads miner).currentJob.ds = some ref →
      (state.datasets ref).holder = some index → Own (.builder ref index))
    (fits : (state.threads miner).miner.Fits (state.threads miner).currentJob) :
    Leads getEpochNumber Own (AtCurrent state.published miner) 10 state := by
  obtain ⟨ref, ds⟩ := Option.isSome_iff_exists.mp leaving.ds
  by_cases ready : (state.datasets ref).readyId = (state.threads miner).currentJob.datasetId
  · have stepped : state.minerStep miner =
        some (state.withThread miner ((state.threads miner).goto .lockShared)) := by
      simp [State.minerStep, phase, ds, ready]
    refine Leads.minerStep own stepped ?_
    refine leads_lockShared own (by simp [State.withThread]) (leaving.goto .lockShared) exclusive
      ?_ ?_
    · simpa [State.withThread] using holding
    · simpa [State.withThread] using fits
  · have stepped : state.minerStep miner =
        some (state.withThread miner ((state.threads miner).goto .checkJob)) := by
      simp [State.minerStep, phase, ds, ready]
    refine (Leads.minerStep own stepped ?_).mono (Nat.le_add_left 3 7)
    exact leads_checkJob own (by simp [State.withThread]) (leaving.goto .checkJob).replaced

end Accesses

/-- No miner is ever stuck: from every reachable state, each one gets to the current job by at
most ten accesses of its own and of the builder that holds the mutex of its dataset, without the
event loop or another miner. -/
theorem miner_responds (getEpochNumber : Int32 → Int32) (state : State ι)
    (reachable : (State.machine getEpochNumber).Reachable state) (miner : ι)
    (fits : (state.threads miner).phase ∈ [.checkReady, .lockShared] →
      (state.threads miner).miner.Fits (state.threads miner).currentJob) :
    Leads getEpochNumber (state.Own miner) (AtCurrent state.published miner) 10 state := by
  have manned : Manned state :=
    reachable.invariant (fun _ => Manned.start) fun _ _ _ _ manned stepped _ => manned.step stepped
  by_cases current : (state.threads miner).lastJob = state.published.current
  · exact .now ⟨rfl, current⟩
  have leaving : (state.threads miner).phase ∉ [.load, .idle] → Leaving state miner := by
    intro begun
    obtain ⟨job, found, works⟩ := manned.engaged miner begun
    obtain ⟨ds, sharesNonce⟩ :=
      manned.serves job (List.mem_of_getElem? found) _ works.type
    refine ⟨current, ?_, ?_⟩
    · rw [works.copied]
      exact ds
    · rw [works.copied]
      exact sharesNonce
  cases phase : (state.threads miner).phase with
  | load => exact (leads_load .miner phase).mono (by omega)
  | idle => exact (leads_idle .miner phase current).mono (by omega)
  | checkJob => exact (leads_checkJob .miner phase current).mono (by omega)
  | checkReady =>
      exact leads_checkReady .miner phase (leaving (by simp [phase])) manned.exclusive .holder
        (fits (by simp [phase]))
  | lockShared =>
      exact (leads_lockShared .miner phase (leaving (by simp [phase])) manned.exclusive .holder
        (fits (by simp [phase]))).mono (by omega)
  | loopHead => exact (leads_loopHead .miner phase (leaving (by simp [phase]))).mono (by omega)
  | nextNonce => exact (leads_nextNonce .miner phase (leaving (by simp [phase]))).mono (by omega)
  | hash => exact (leads_hash .miner phase (leaving (by simp [phase]))).mono (by omega)
  | unlockShared => exact (leads_unlockShared .miner phase (leaving (by simp [phase]))).mono (by omega)

/-- A miner is about to lock its dataset when a job of the next epoch comes; the builder
for it is faster. -/
def overtaken : List (State.Input Unit) :=
  State.acceptance { eightBytePoolJob .progpow with height := 30000 } 5 4 ++
    List.replicate 6 (.builder .progpowDataset 0) ++ List.replicate 2 (.miner ()) ++
    State.acceptance { eightBytePoolJob .progpow with height := 60000 } 1 4 ++
    [.builder .progpowDataset 1]

/-- The miner waits for the second builder, with a job that is replaced. -/
def Overtaken (state : State Unit) : Prop :=
  (state.threads ()).phase = .lockShared ∧
    (state.threads ()).lastJob ≠ state.published.current ∧
    (state.datasets .progpowDataset).holder = some 1

instance (state : State Unit) : Decidable (Overtaken state) :=
  inferInstanceAs (Decidable (_ ∧ _ ∧ _))

theorem miner_responds_overtaken :
    ∃ state : State Unit, Overtaken state ∧
      Leads ethashEpoch (state.Own ()) (AtCurrent state.published ()) 10 state := by
  have initial : State.Initial (State.start (fun _ : Unit => .ppCpuMiner) default) :=
    State.start_initial _ _
  have executed := Machine.execute_reachable initial (State.step ethashEpoch) overtaken
    (fun state => Overtaken state ∧ (state.threads ()).miner.Fits (state.threads ()).currentJob)
    (by decide +kernel)
  generalize Machine.execute _ _ _ = state at executed
  obtain ⟨reachable, waiting, fits⟩ := executed
  exact ⟨state, waiting, miner_responds ethashEpoch state reachable () fun _ => fits⟩

end EpicMiner.Mining
