import EpicMiner.Mining.Machine

/-!
Owns the nonces that the miners hash for each job. Chunks are distinct as long as
the counter only grows between two claims for one job; the event loop sets it to
0 while miners are still at work on the job before.
-/

namespace EpicMiner.Mining

open EpicMiner.Library
open EpicMiner.Data

variable {ι : Type}

/-! ## Claims and hashes -/

def MiningEvent.claimed : MiningEvent ι → Option (Nat × UInt32)
  | .claim _ job chunk => some (job, chunk)
  | _ => none

def MiningEvent.hashed : MiningEvent ι → Option (Nat × UInt32)
  | .hash _ job nonce => some (job, nonce)
  | _ => none

def claims (log : List (MiningEvent ι)) : List (Nat × UInt32) :=
  log.filterMap MiningEvent.claimed

def hashes (log : List (MiningEvent ι)) : List (Nat × UInt32) :=
  log.filterMap MiningEvent.hashed

theorem claims_claim (miner : ι) (job : Nat) (chunk : UInt32) (older : List (MiningEvent ι)) :
    claims (.claim miner job chunk :: older) = (job, chunk) :: claims older := rfl

/-- The counter was not set to 0 since the latest claim for `job`, if any. -/
def KeptSinceClaim (job : Nat) : List (MiningEvent ι) → Prop
  | [] => True
  | .storeNonce :: older => job ∉ (claims older).map Prod.fst
  | .claim _ other _ :: older => other = job ∨ KeptSinceClaim job older
  | .hash _ _ _ :: older => KeptSinceClaim job older

/-- The counter was never set to 0 between two claims for one job. -/
def NeverReset : List (MiningEvent ι) → Prop
  | [] => True
  | .claim _ job _ :: older => KeptSinceClaim job older ∧ NeverReset older
  | .storeNonce :: older => NeverReset older
  | .hash _ _ _ :: older => NeverReset older

/-- What the counter holds after the logged accesses. -/
def counterAfter : List (MiningEvent ι) → UInt32
  | [] => 0
  | .storeNonce :: _ => 0
  | .claim _ _ chunk :: _ => chunk + nonceChunk
  | .hash _ _ _ :: older => counterAfter older

/-- Every claim got what the counter held. -/
def Counted : List (MiningEvent ι) → Prop
  | [] => True
  | .claim _ _ chunk :: older => chunk = counterAfter older ∧ Counted older
  | .storeNonce :: older => Counted older
  | .hash _ _ _ :: older => Counted older

/-- Since a claim for a job the counter has grown by the chunks claimed from then
on. -/
theorem counterAfter_of_mem_claims {log : List (MiningEvent ι)} (counted : Counted log)
    (never : NeverReset log) {job : Nat} (kept : KeptSinceClaim job log) {chunk : UInt32}
    (member : (job, chunk) ∈ claims log) :
    ∃ count, 1 ≤ count ∧ count ≤ (claims log).length ∧
      (counterAfter log).toNat = (chunk.toNat + count * 16384) % 4294967296 := by
  induction log with
  | nil => cases member
  | cons event older inductionHypothesis =>
      cases event with
      | storeNonce => exact absurd (List.mem_map.mpr ⟨_, member, rfl⟩) kept
      | hash miner other nonce => exact inductionHypothesis counted never kept member
      | claim miner other obtained =>
          obtain ⟨same, counted⟩ := counted
          obtain ⟨keptOther, never⟩ := never
          have grown : (counterAfter (.claim miner other obtained :: older)).toNat =
              (obtained.toNat + 16384) % 4294967296 := by
            simp [counterAfter, nonceChunk]
          have length : (claims (.claim miner other obtained :: older)).length =
              (claims older).length + 1 := rfl
          rcases List.mem_cons.mp member with now | earlier
          · cases now
            exact ⟨1, Nat.le_refl 1, by omega, by rw [grown]⟩
          · have keptOlder : KeptSinceClaim job older := by
              rcases kept with rfl | kept
              · exact keptOther
              · exact kept
            obtain ⟨count, positive, bound, value⟩ :=
              inductionHypothesis counted never keptOlder earlier
            refine ⟨count + 1, by omega, by omega, ?_⟩
            rw [grown, same, value]
            omega

/-- A claim obtains a chunk that was not claimed for its job before. -/
theorem fresh_counterAfter {log : List (MiningEvent ι)} (counted : Counted log)
    (never : NeverReset log) {job : Nat} (kept : KeptSinceClaim job log)
    (few : (claims log).length < counterChunks) : (job, counterAfter log) ∉ claims log := by
  intro member
  unfold counterChunks at few
  obtain ⟨count, positive, bound, value⟩ := counterAfter_of_mem_claims counted never kept member
  have range := (counterAfter log).toNat_lt
  omega

/-! ## Threads in their loops -/

/-- A hash that is due: the job and the nonce it is for. -/
def Thread.work (thread : Thread) : Nat × UInt32 :=
  (thread.lastJob, thread.nonce)

/-- Hashes made and hashes due are of claimed chunks, and all differ. -/
structure Distinct (state : State ι) : Prop where
  made : (hashes state.log).Nodup
  madeClaimed : ∀ work ∈ hashes state.log, work ∈ claims state.log
  due : ∀ miner, (state.threads miner).phase = .hash →
    (state.threads miner).work ∈ claims state.log ∧ (state.threads miner).work ∉ hashes state.log
  apart : ∀ miner other, (state.threads miner).phase = .hash →
    (state.threads other).phase = .hash →
    (state.threads miner).work = (state.threads other).work → miner = other

/-- The counter is what the log says, and every thread in its loop stands at the
start of a chunk. -/
structure Scheduled (state : State ι) : Prop where
  counter : state.nonce = counterAfter state.log
  counted : Counted state.log
  aligned : Aligned state.nonce
  loops : ∀ miner, (state.threads miner).phase ∈ [.loopHead, .nextNonce, .hash] →
    (state.threads miner).miner.Fits (state.threads miner).currentJob ∧
      Aligned (state.threads miner).nonce
  distinct : NeverReset state.log → (claims state.log).length < counterChunks → Distinct state

theorem Scheduled.frame {state next : State ι} (scheduled : Scheduled state)
    (nonce : next.nonce = state.nonce) (log : next.log = state.log)
    (loops : ∀ miner, (next.threads miner).phase ∈ [.loopHead, .nextNonce, .hash] →
      (next.threads miner).miner.Fits (next.threads miner).currentJob ∧
        Aligned (next.threads miner).nonce)
    (due : ∀ miner, (next.threads miner).phase = .hash →
      next.threads miner = state.threads miner) : Scheduled next where
  counter := by rw [nonce, log, scheduled.counter]
  counted := log ▸ scheduled.counted
  aligned := nonce ▸ scheduled.aligned
  loops := loops
  distinct := by
    intro never few
    rw [log] at never few
    have distinct := scheduled.distinct never few
    constructor
    · rw [log]
      exact distinct.made
    · rw [log]
      exact distinct.madeClaimed
    · intro miner phase
      have same := due miner phase
      rw [same] at phase ⊢
      rw [log]
      exact distinct.due miner phase
    · intro miner other phase phaseOther
      rw [due miner phase, due other phaseOther]
      exact distinct.apart miner other (due miner phase ▸ phase) (due other phaseOther ▸ phaseOther)

section Steps

variable [DecidableEq ι] {state next : State ι} {miner : ι}

theorem Scheduled.loops_update (scheduled : Scheduled state) {thread : Thread}
    (loop : thread.phase ∈ [.loopHead, .nextNonce, .hash] →
      thread.miner.Fits thread.currentJob ∧ Aligned thread.nonce) (other : ι)
    (phase : (Function.update state.threads miner thread other).phase ∈
      [.loopHead, .nextNonce, .hash]) :
    (Function.update state.threads miner thread other).miner.Fits
        (Function.update state.threads miner thread other).currentJob ∧
      Aligned (Function.update state.threads miner thread other).nonce := by
  by_cases same : other = miner
  · subst same
    rw [Function.update_self] at *
    exact loop phase
  · rw [Function.update_of_ne same] at *
    exact scheduled.loops other phase

theorem Scheduled.move (scheduled : Scheduled state) {thread : Thread}
    (nonce : next.nonce = state.nonce) (log : next.log = state.log)
    (threads : next.threads = Function.update state.threads miner thread)
    (moved : thread.phase ≠ .hash)
    (loop : thread.phase ∈ [.loopHead, .nextNonce, .hash] →
      thread.miner.Fits thread.currentJob ∧ Aligned thread.nonce) : Scheduled next := by
  refine scheduled.frame nonce log (fun other => ?_) fun other => ?_
  · rw [threads]
    exact scheduled.loops_update loop other
  · rw [threads]
    by_cases same : other = miner
    · subst same
      rw [Function.update_self]
      exact fun phase => absurd phase moved
    · rw [Function.update_of_ne same]
      exact fun _ => rfl

theorem Distinct.claim (distinct : Distinct state) {thread : Thread} (chunk : UInt32)
    (fresh : thread.work ∉ claims state.log)
    (threads : next.threads = Function.update state.threads miner thread)
    (log : next.log = .claim miner thread.lastJob chunk :: state.log)
    (work : thread.work = (thread.lastJob, chunk)) : Distinct next := by
  have claimed : claims next.log = thread.work :: claims state.log := by
    rw [log, work]
    rfl
  have hashed : hashes next.log = hashes state.log := by
    rw [log]
    rfl
  have other : ∀ {other : ι}, other ≠ miner → next.threads other = state.threads other := by
    intro other differs
    rw [threads, Function.update_of_ne differs]
  have self : next.threads miner = thread := by rw [threads, Function.update_self]
  have apartFromSelf : ∀ {other : ι}, other ≠ miner → (next.threads other).phase = .hash →
      (next.threads other).work ≠ thread.work := by
    intro another differs phase same
    rw [other differs] at phase same
    exact fresh (same ▸ (distinct.due another phase).1)
  constructor
  case made => rw [hashed]; exact distinct.made
  case madeClaimed =>
    intro made member
    rw [hashed] at member
    rw [claimed]
    exact .tail _ (distinct.madeClaimed made member)
  case due =>
    intro another phase
    rw [claimed, hashed]
    by_cases same : another = miner
    · subst same
      rw [self]
      exact ⟨.head _, fun made => fresh (distinct.madeClaimed _ made)⟩
    · rw [other same] at phase ⊢
      exact ⟨.tail _ (distinct.due another phase).1, (distinct.due another phase).2⟩
  case apart =>
    intro first second phase phaseSecond works
    by_cases isFirst : first = miner <;> by_cases isSecond : second = miner
    · exact isFirst.trans isSecond.symm
    · subst isFirst
      rw [self] at works
      exact absurd works.symm (apartFromSelf isSecond phaseSecond)
    · subst isSecond
      rw [self] at works
      exact absurd works (apartFromSelf isFirst phase)
    · rw [other isFirst] at phase works
      rw [other isSecond] at phaseSecond works
      exact distinct.apart first second phase phaseSecond works

theorem Distinct.hash (distinct : Distinct state) {thread : Thread}
    (phase : (state.threads miner).phase = .hash) (moved : thread.phase ≠ .hash)
    (threads : next.threads = Function.update state.threads miner thread)
    (log : next.log =
      .hash miner (state.threads miner).lastJob (state.threads miner).nonce :: state.log) :
    Distinct next := by
  have claimed : claims next.log = claims state.log := by
    rw [log]
    rfl
  have hashed : hashes next.log = (state.threads miner).work :: hashes state.log := by
    rw [log]
    rfl
  have due := distinct.due miner phase
  have stillDue : ∀ {other : ι}, (next.threads other).phase = .hash →
      other ≠ miner ∧ next.threads other = state.threads other := by
    intro other phaseOther
    rw [threads] at phaseOther ⊢
    have differs : other ≠ miner := by
      intro same
      rw [same, Function.update_self] at phaseOther
      exact moved phaseOther
    exact ⟨differs, Function.update_of_ne differs ..⟩
  constructor
  case made =>
    rw [hashed]
    exact List.nodup_cons.mpr ⟨due.2, distinct.made⟩
  case madeClaimed =>
    intro made member
    rw [hashed] at member
    rw [claimed]
    rcases List.mem_cons.mp member with now | earlier
    · exact now ▸ due.1
    · exact distinct.madeClaimed made earlier
  case due =>
    intro other phaseOther
    obtain ⟨differs, same⟩ := stillDue phaseOther
    rw [same] at phaseOther ⊢
    rw [claimed, hashed]
    refine ⟨(distinct.due other phaseOther).1, fun member => ?_⟩
    rcases List.mem_cons.mp member with now | earlier
    · exact differs (distinct.apart other miner phaseOther phase now)
    · exact (distinct.due other phaseOther).2 earlier
  case apart =>
    intro first second phaseFirst phaseSecond works
    have sameFirst := (stillDue phaseFirst).2
    have sameSecond := (stillDue phaseSecond).2
    rw [sameFirst] at phaseFirst works
    rw [sameSecond] at phaseSecond works
    exact distinct.apart first second phaseFirst phaseSecond works

theorem Scheduled.claim (scheduled : Scheduled state)
    (phase : (state.threads miner).phase = .nextNonce) :
    Scheduled (({ state with nonce := state.nonce + nonceChunk }.withThread miner
      ((state.threads miner).claim state.nonce)).record
        (.claim miner (state.threads miner).lastJob state.nonce)) := by
  have loop := scheduled.loops miner (by simp [phase])
  have nonce : ((state.threads miner).claim state.nonce).nonce = state.nonce := by
    rw [Thread.claim, Thread.goto_nonce, nonce_withNonce_of_fits loop.1]
  have lastJob : ((state.threads miner).claim state.nonce).lastJob =
      (state.threads miner).lastJob := by
    rw [Thread.claim, Thread.goto_lastJob, Thread.withNonce_lastJob]
  have work : ((state.threads miner).claim state.nonce).work =
      ((state.threads miner).lastJob, state.nonce) := by
    rw [Thread.work, nonce, lastJob]
  constructor
  case counter => rfl
  case counted =>
    rw [State.record_log, State.withThread_log]
    exact ⟨scheduled.counter, scheduled.counted⟩
  case aligned => exact scheduled.aligned.next
  case loops =>
    refine scheduled.loops_update fun _ => ⟨?_, ?_⟩
    · exact (Thread.fits_withNonce _).mpr loop.1
    · rw [nonce]
      exact scheduled.aligned
  case distinct =>
    rw [State.record_log, State.withThread_log]
    rintro ⟨kept, never⟩ few
    rw [claims_claim, List.length_cons] at few
    dsimp only at few
    have fewer : (claims state.log).length < counterChunks := by omega
    have fresh := fresh_counterAfter scheduled.counted never kept fewer
    rw [← scheduled.counter, ← work] at fresh
    refine (scheduled.distinct never fewer).claim state.nonce fresh rfl ?_ ?_
    · rw [State.record_log, State.withThread_log, lastJob]
    · rw [work, lastJob]

theorem Scheduled.hash (scheduled : Scheduled state)
    (phase : (state.threads miner).phase = .hash) :
    Scheduled ((state.withThread miner ((state.threads miner).goto .loopHead)).record
      (.hash miner (state.threads miner).lastJob (state.threads miner).nonce)) := by
  constructor
  case counter => exact scheduled.counter
  case counted => exact scheduled.counted
  case aligned => exact scheduled.aligned
  case loops =>
    refine scheduled.loops_update fun _ => ?_
    rw [Thread.goto_miner, Thread.goto_currentJob, Thread.goto_nonce]
    exact scheduled.loops miner (by simp [phase])
  case distinct =>
    intro never few
    exact (scheduled.distinct never few).hash phase (by simp) rfl rfl

theorem Scheduled.minerAccess (scheduled : Scheduled state)
    (access : state.MinerAccess miner next) : Scheduled next := by
  have loops := scheduled.loops miner
  cases access with
  | load phase =>
      refine scheduled.move rfl rfl rfl ?_ ?_ <;>
        simp only [Thread.load] <;> split <;> simp
  | rest phase => exact scheduled
  | wait phase before after =>
      refine scheduled.move rfl rfl rfl ?_ ?_
      · rintro rfl
        simp at after
      · intro inLoop
        simp at after inLoop
        rcases after with rfl | rfl | rfl <;> simp at inLoop
  | ready ref phase ds ready => exact scheduled.move rfl rfl rfl (by simp) (by simp)
  | lockShared ref phase ds free fits =>
      refine scheduled.move rfl rfl rfl (by simp) fun _ => ⟨?_, ?_⟩
      · exact (Thread.fits_withNonce _).mpr fits
      · rw [Thread.goto_nonce, nonce_withNonce_of_fits fits]
        exact aligned_zero
  | goOn phase current =>
      refine scheduled.move rfl rfl rfl (by simp) fun _ => ?_
      simpa using loops (by simp [phase])
  | stop phase changed => exact scheduled.move rfl rfl rfl (by simp) (by simp)
  | claim phase claims => exact scheduled.claim phase
  | increment phase claims => exact absurd (loops (by simp [phase])).2 claims
  | hash phase => exact scheduled.hash phase
  | unlockShared ref phase ds => exact scheduled.move rfl rfl rfl (by simp) (by simp)

end Steps

/-! ## Event loop and builders -/

section EventLoop

variable {state : State ι} {getEpochNumber : Int32 → Int32}

theorem Scheduled.storeNonce (scheduled : Scheduled state) :
    Scheduled ({ state with nonce := 0 }.record .storeNonce) where
  counter := rfl
  counted := scheduled.counted
  aligned := aligned_zero
  loops := scheduled.loops
  distinct := fun never few =>
    have distinct := scheduled.distinct never few
    { made := distinct.made
      madeClaimed := distinct.madeClaimed
      due := distinct.due
      apart := distinct.apart }

theorem Scheduled.access (scheduled : Scheduled state) (op : SharedOp) :
    Scheduled (state.access getEpochNumber op) := by
  have loops := scheduled.loops
  cases op with
  | storeNonce => exact scheduled.storeNonce
  | adjustToSeed seed => exact scheduled.frame rfl rfl loops fun _ _ => rfl
  | adjustToBlock height => exact scheduled.frame rfl rfl loops fun _ _ => rfl
  | publish job => exact scheduled.frame rfl rfl loops fun _ _ => rfl
  | publishIdle =>
      unfold State.access
      dsimp only
      split
      · exact scheduled.frame rfl rfl loops fun _ _ => rfl
      · exact scheduled

theorem scheduled_start (initial : State.Initial state) : Scheduled state := by
  obtain ⟨miners, seed, rfl⟩ := initial
  constructor
  case counter => rfl
  case counted => trivial
  case aligned => exact aligned_zero
  case loops =>
    intro miner inLoop
    simp [State.start, Thread.start] at inLoop
  case distinct =>
    intro _ _
    constructor <;> simp [State.start, Thread.start, hashes]

end EventLoop

/-! ## Runs -/

section Runs

variable [DecidableEq ι]

theorem Scheduled.step {getEpochNumber : Int32 → Int32} {state next : State ι}
    {input : State.Input ι} (scheduled : Scheduled state)
    (stepped : state.step getEpochNumber input = some next) : Scheduled next := by
  have loops := scheduled.loops
  cases State.taken_of_step stepped with
  | happen happening => exact scheduled.frame rfl rfl loops fun _ _ => rfl
  | event op rest script =>
      have begun : Scheduled { state with script := rest } :=
        scheduled.frame rfl rfl loops fun _ _ => rfl
      exact begun.access op
  | request ref dataset => exact scheduled.frame rfl rfl loops fun _ _ => rfl
  | builder ref index dataset => exact scheduled.frame rfl rfl loops fun _ _ => rfl
  | miner miner next access => exact scheduled.minerAccess access

/-- A miner that is about to claim a chunk finds a counter that was not set to 0
since the latest claim for its job. -/
def CounterKept (state : State ι) : State.Input ι → Prop
  | .miner miner =>
      (state.threads miner).phase = .nextNonce →
        KeptSinceClaim (state.threads miner).lastJob state.log
  | _ => True

theorem neverReset_step {getEpochNumber : Int32 → Int32} {state next : State ι}
    {input : State.Input ι} (never : NeverReset state.log)
    (stepped : state.step getEpochNumber input = some next) (kept : CounterKept state input) :
    NeverReset next.log := by
  cases State.taken_of_step stepped with
  | happen happening => exact never
  | event op rest script =>
      cases op with
      | storeNonce => exact never
      | adjustToSeed seed => exact never
      | adjustToBlock height => exact never
      | publish job => exact never
      | publishIdle =>
          unfold State.access
          dsimp only
          split <;> exact never
  | request ref dataset => exact never
  | builder ref index dataset => exact never
  | miner miner next access =>
      cases access with
      | claim phase claims =>
          rw [State.record_log, State.withThread_log]
          exact ⟨kept phase, never⟩
      | _ => exact never

/-- Where the counter is not set to 0 between two claims for one job, no nonce
is hashed twice for it. -/
theorem hashes_nodup (getEpochNumber : Int32 → Int32) (state : State ι)
    (reachable : (State.machine getEpochNumber).ReachableWhen
      (fun before input _ => CounterKept before input) state)
    (few : (claims state.log).length < counterChunks) : (hashes state.log).Nodup := by
  have scheduled : Scheduled state :=
    reachable.invariant (fun _ => scheduled_start) fun _ _ _ _ scheduled stepped _ =>
      scheduled.step stepped
  have never : NeverReset state.log := by
    refine reachable.invariant ?_ fun _ _ _ _ never stepped kept =>
      neverReset_step never stepped kept
    rintro start ⟨miners, seed, rfl⟩
    trivial
  exact (scheduled.distinct never few).made

end Runs

/-! ## One job and a rejected message -/

def firstHash : List (State.Input Unit) :=
  firstClaim ++ [.miner ()]

/-- The miner claims a second chunk for the job that it has. -/
def secondHash : List (State.Input Unit) :=
  firstHash ++ List.replicate 3 (.miner ())

/-- A job message is rejected, and the miner goes on with the job it has. -/
def hashAgain : List (State.Input Unit) :=
  firstHash ++ [.happen .rejected, .event] ++ List.replicate 3 (.miner ())

instance decidableKeptSinceClaim (job : Nat) :
    (log : List (MiningEvent ι)) → Decidable (KeptSinceClaim job log)
  | [] => inferInstanceAs (Decidable True)
  | .storeNonce :: older => inferInstanceAs (Decidable (job ∉ (claims older).map Prod.fst))
  | .claim _ other _ :: older =>
      have := decidableKeptSinceClaim job older
      inferInstanceAs (Decidable (other = job ∨ KeptSinceClaim job older))
  | .hash _ _ _ :: older => decidableKeptSinceClaim job older

instance [DecidableEq ι] (state : State ι) (input : State.Input ι) :
    Decidable (CounterKept state input) :=
  match input with
  | .miner _ => inferInstanceAs (Decidable (_ → _))
  | .happen _ | .event | .request _ | .builder _ _ => .isTrue trivial

theorem hashes_nodup_secondHash :
    ∃ state : State Unit,
      hashes state.log = [(1, 16384), (1, 0)] ∧ (hashes state.log).Nodup := by
  have initial : State.Initial (State.start (fun _ : Unit => .rxCpuMiner) default) :=
    State.start_initial _ _
  have executed := Machine.execute_reachableWhen initial (State.step ethashEpoch) CounterKept
    secondHash (fun state => (claims state.log).length < counterChunks ∧
      hashes state.log = [(1, 16384), (1, 0)]) (by decide +kernel)
  generalize Machine.execute _ _ _ = state at executed
  obtain ⟨reachable, few, hashed⟩ := executed
  exact ⟨state, hashed, hashes_nodup ethashEpoch state reachable few⟩

/-- A rejected message sets the counter to 0 under the job that stays current;
its miner gets the first chunk again. -/
theorem hashes_not_nodup_hashAgain :
    ∃ state : State Unit, (State.machine ethashEpoch).Reachable state ∧
      (claims state.log).length < counterChunks ∧ ¬ (hashes state.log).Nodup :=
  ⟨_, Machine.execute_reachable (State.start_initial (fun _ : Unit => .rxCpuMiner) default)
    (State.step ethashEpoch) hashAgain
    (fun state => (claims state.log).length < counterChunks ∧ ¬ (hashes state.log).Nodup)
    (by decide +kernel)⟩

end EpicMiner.Mining
